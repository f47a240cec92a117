import GoRepl.Proofs.Syntax.Expression
import GoRepl.Proofs.Syntax.Words

/-! # The words of expressions and statements

One lemma for each reader of the grammar, given that the readers of the phrases nested in it keep
the words.

* `primary_keeps`, `stmt_keeps` and the lemmas around them: the grammar of expressions and
  statements.
* `step_keep`, `read_keep`: so by induction the readers of any depth.
-/

namespace GoRepl.Syntax

open Read Grammar

open Syntax.Node (wordsOf)

attribute [local simp] Node.parts Node.front Node.back Node.children Phrase.words Phrase.before

section Phrases

variable {rec : Phrases} {o : List Bool} {ts : List Token} (h : Phrases.Keep rec)

include h

/-! ## Expressions -/

theorem funcOperand_keeps : KeepsExpr o [] ts (funcOperand rec) := by
  unfold funcOperand
  refine .bind (signature_keeps h) fun s zs => .atSymbol (fun hk => ?_) (.built _ rfl (by simp))
  have hbody : KeepsIn o [] (fun b => wordsOf (b.map .stmt)) zs
      (nested (skip >>= fun _ => rec .stmts >>= fun b => expect .rbrace >>= fun _ => pure b)) := by
    refine .nested (.skip_opening .brace hk fun _ => .bind (h .stmts _ _ untagged) fun b _ => ?_)
    exact .expect_closing .brace fun _ => .of_pure rfl
  exact .bind hbody fun b _ => .built _ rfl (by simp)

variable (ho : o.head? ≠ some true)

include ho

theorem operand_keeps : KeepsExpr o [] ts (operand rec) := by
  unfold operand
  refine .peek fun k hk => ?_
  split
  · exact .skip_name hk fun _ => .built _ rfl (by simp)
  · exact .skip_literal hk ho fun _ => .built _ rfl (by simp)
  · refine .skip_opening .paren hk fun _ => ?_
    refine .bind (.nested (h (.binary 1) _ _ untagged)) fun x _ => ?_
    exact .expect_closing .paren fun _ => .built _ rfl (by simp)
  · exact .skip hk rfl fun _ => funcOperand_keeps h
  all_goals first | exact type_keeps h | exact .unexpected _

theorem primary_keeps : KeepsExpr o [] ts (primary rec) := by
  unfold primary
  exact .chain (operand_keeps h ho) fun x _ => h (.primaryTail x) _ _ ho

omit h ho in
theorem isSilent_of_unaryOp? {k : Kind} {op : UnaryOp} (hop : unaryOp? k = some op) :
    k.isSilent = true := by
  unfold unaryOp? at hop
  split at hop
  all_goals first | rfl | cases hop

omit h ho in
theorem receive_keeps (x : Expr) : KeepsExpr o (Node.expr x).words ts (receive x) := by
  unfold receive
  split
  · exact .built _ rfl (by simp [Node.words_eq (.expr (.chanType _ _))])
  · exact .fail _
  · exact .built _ rfl (by simp)

theorem unary_keeps : KeepsExpr o [] ts (unary rec) := by
  unfold unary
  refine .peek fun k hk => ?_
  split
  · rename_i op hop
    refine .skip hk (isSilent_of_unaryOp? hop) fun _ => .bind (h .unary _ _ ho) fun x _ => ?_
    exact .built _ rfl (by simp)
  · split
    · rename_i ha
      refine .skip hk (eq_of_beq ha ▸ rfl) fun _ => ?_
      exact .chain (h .unary _ _ ho) fun x _ => receive_keeps x
    · split
      · rename_i hm
        refine .skip hk (eq_of_beq hm ▸ rfl) fun _ => .bind (h .unary _ _ ho) fun x _ => ?_
        exact .built _ rfl (by simp)
      · exact primary_keeps h ho

theorem binaryTail_keeps (prec : Nat) (left : Expr) :
    KeepsExpr o (Node.expr left).words ts (binaryTail rec prec left) := by
  unfold binaryTail
  refine .peek fun k hk => ?_
  split
  · rename_i op
    split
    · exact .of_pure rfl
    · refine .skip hk rfl fun _ => .bind (h (.binary _) _ _ ho) fun right _ => ?_
      refine (h (.binaryTail prec (.binary left op right)) _ _ ho).cast ?_
      simp [Node.words_eq (.expr (.binary _ _ _))]
  · exact .of_pure rfl

theorem binary_keeps (prec : Nat) : KeepsExpr o [] ts (binary rec prec) := by
  unfold binary
  exact .chain (unary_keeps h ho) fun x _ => h (.binaryTail prec x) _ _ ho

theorem expr_keeps : KeepsExpr o [] ts (expr rec) := binary_keeps h ho 1

theorem exprs_keeps : KeepsIn o [] (fun xs => wordsOf (xs.map .expr)) ts (exprs rec) := by
  unfold exprs
  refine .bind (expr_keeps h ho) fun x _ => .bind (h .exprsTail _ _ ho) fun xs _ => ?_
  exact .of_pure (by simp)

theorem exprsTail_keeps : KeepsIn o [] (fun xs => wordsOf (xs.map .expr)) ts (exprsTail rec) := by
  unfold exprsTail
  refine .atSymbol (fun hk => ?_) (.of_pure rfl)
  exact .skip hk rfl fun _ => exprs_keeps h ho

theorem args_keeps : KeepsIn o [] (fun as => wordsOf (as.1.map .expr)) ts (args rec) := by
  unfold args
  refine .atListEnd fun b => ?_
  split
  · exact .of_pure rfl
  refine .bind (expr_keeps h ho) fun x zs => ?_
  have hmore : ∀ spread zs, KeepsIn o (Node.expr x).words (fun as => wordsOf (as.1.map .expr)) zs
      (atSymbol .comma >>= fun b => if b = true then skip >>= fun _ => rec .args >>= fun more =>
        pure (x :: more.1, spread || more.2)
      else pure ([x], spread)) := fun spread zs => by
    refine .atSymbol (fun hk => ?_) (.of_pure (by simp))
    exact .skip hk rfl fun _ => .bind (h .args _ _ ho) fun more _ => .of_pure (by simp)
  refine .atSymbol (fun hk => ?_) (hmore _ _)
  exact .skip hk rfl fun _ => hmore _ _

theorem bound_keeps :
    KeepsIn o [] (fun x => wordsOf (x.toList.map .expr)) ts (indexOrSlice.bound rec) := by
  unfold indexOrSlice.bound
  refine .atSymbol (fun _ => ?_) (.atSymbol (fun _ => .of_pure rfl) ?_)
  · exact .atSymbol (fun _ => .of_pure rfl) (.of_pure rfl)
  · exact .bind (h (.binary 1) _ _ ho) fun i _ => .of_pure (by simp)

theorem sliceOrIndex_keeps (x : Expr) (low : Option Expr) :
    KeepsIn o (wordsOf ((x :: low.toList).map .expr)) (fun made => (Node.expr made.1).words) ts
      (sliceOrIndex rec x low) := by
  unfold sliceOrIndex
  refine .atSymbol (fun hk => ?_) ?_
  · refine .skip hk rfl fun _ => .bind (bound_keeps h ho) fun high _ => ?_
    refine .atSymbol (fun hk => ?_) (.built _ rfl (by simp))
    refine .skip hk rfl fun _ => .bind (bound_keeps h ho) fun max _ => .built _ rfl ?_
    simp
  · exact .bind (h .typeArgsTail _ _ ho) fun us _ => .built _ rfl (by simp)

omit ho in
theorem indexOrSlice_keeps (x : Expr) :
    KeepsExpr o (Node.expr x).words ts (indexOrSlice rec x) := by
  have hmade : ∀ zs, Keeps ⟨false, false :: o⟩ ⟨false, false :: o⟩ (Node.expr x).words
      (fun made => (Node.expr made.1).words) zs (atSymbol .colon >>= fun b =>
        if b = true then sliceOrIndex rec x none
        else expr rec >>= fun i => sliceOrIndex rec x (some i)) := fun zs => by
    refine .atSymbol (fun _ => (sliceOrIndex_keeps h untagged x none).cast (by simp)) ?_
    refine .bind (expr_keeps h untagged) fun i _ => ?_
    exact (sliceOrIndex_keeps h untagged x (some i)).cast (by simp)
  rw [indexOrSlice_eq]
  refine .expect_opening .square fun _ => .chain (.nested (hmade _)) fun made _ => ?_
  refine .expect_closing .square fun _ => ?_
  split
  · exact .fail _
  · exact .of_pure rfl

omit ho in
theorem call_keeps (fn : Expr) : KeepsExpr o (Node.expr fn).words ts (call rec fn) := by
  unfold call
  refine .expect_opening .paren fun _ => ?_
  refine .bind (.nested (h .args _ _ untagged)) fun arguments _ => ?_
  exact .expect_closing .paren fun _ => .built _ rfl (by simp)

omit ho in
theorem composite_keeps (t : Option Expr) :
    KeepsExpr o (wordsOf (t.toList.map .expr)) ts (composite rec t) := by
  unfold composite
  refine .expect_opening .brace fun _ => .bind (.nested (h .elems _ _ untagged)) fun es _ => ?_
  exact .expect_closing .brace fun _ => .built _ rfl (by simp)

theorem elem_keeps : KeepsExpr o [] ts (elem rec) := by
  unfold elem
  exact .atSymbol (fun _ => composite_keeps h none) (expr_keeps h ho)

theorem elems_keeps : KeepsIn o [] (fun es => wordsOf (es.map .expr)) ts (elems rec) := by
  unfold elems
  refine .atListEnd fun b => ?_
  split
  · exact .of_pure rfl
  refine .bind (elem_keeps h ho) fun k _ => ?_
  have hmore : ∀ e zs, KeepsIn o (Node.expr e).words (fun es => wordsOf (es.map .expr)) zs
      (atSymbol .comma >>= fun b =>
        if b = true then skip >>= fun _ => rec .elems >>= fun es => pure (e :: es)
        else pure [e]) := fun e zs => by
    refine .atSymbol (fun hk => ?_) (.of_pure (by simp))
    exact .skip hk rfl fun _ => .bind (h .elems _ _ ho) fun es _ => .of_pure (by simp)
  refine .atSymbol (fun hk => ?_) (hmore k _)
  refine .skip hk rfl fun _ => .bind (elem_keeps h ho) fun v _ => .pure_bind ?_
  exact (hmore (.keyValue k v) _).cast (by simp [Node.words_eq (.expr (.keyValue _ _))])

omit ho in
theorem selectorOrAssertion_keeps (x : Expr) :
    KeepsExpr o (Node.expr x).words ts (selectorOrAssertion rec x) := by
  unfold selectorOrAssertion
  refine .peek fun k hk => ?_
  split
  · exact .skip_name hk fun _ => .built _ rfl (by simp)
  · refine .skip_opening .paren hk fun _ => .peek fun k hk => ?_
    split
    · rename_i ht
      refine .skip hk (eq_of_beq ht ▸ rfl) fun _ => .pure_bind ?_
      exact .expect_closing .paren fun _ => .built _ rfl (by simp)
    · refine .bind h.type fun t _ => .pure_bind ?_
      exact .expect_closing .paren fun _ => .built _ rfl (by simp)
  · exact .unexpected _

theorem primaryTail_keeps (x : Expr) :
    KeepsExpr o (Node.expr x).words ts (primaryTail rec x) := by
  have hmore : ∀ y zs, KeepsExpr o (Node.expr y).words zs (rec (.primaryTail y)) := fun y zs =>
    h (.primaryTail y) o zs ho
  unfold primaryTail
  refine .peek fun k hk => ?_
  split
  · exact .skip hk rfl fun _ => .chain (selectorOrAssertion_keeps h x) hmore
  · exact .chain (indexOrSlice_keeps h x) hmore
  · exact .chain (call_keeps h x) hmore
  · refine .level fun l => ?_
    split
    · exact .chain ((composite_keeps h (some x)).cast (by simp)) hmore
    · exact .of_pure rfl
  · exact .of_pure rfl

/-! ## Simple statements -/

omit h ho in
theorem isSilent_of_assignOp? {k : Kind} {op : AssignOp} (hop : assignOp? k = some op) :
    k.isSilent = true := by
  unfold assignOp? at hop
  split at hop
  all_goals first | rfl | cases hop

theorem assignment_keeps (left : List Expr) (op : AssignOp) (hk : (headKind ts).isSilent = true) :
    KeepsIn o (wordsOf (left.map .expr)) (fun s => (Node.simple s).words) ts
      (assignment rec left op) := by
  unfold assignment
  refine .skip rfl hk fun _ => .bind (exprs_keeps h ho) fun right zs => ?_
  extract_lets done
  have hdone : ∀ zs, KeepsIn o (wordsOf (left.map .expr) ++ wordsOf (right.map .expr))
      (fun s => (Node.simple s).words) zs (done ()) := fun zs =>
    .built (.simple (.assign left op right)) rfl (by simp)
  split
  · split
    · exact .fail_bind _ _
    · exact .pure_bind (hdone _)
  · exact hdone _

theorem simpleTail_keeps (left : List Expr) :
    KeepsIn o (wordsOf (left.map .expr)) (fun s => (Node.simple s).words) ts
      (simpleTail rec left) := by
  unfold simpleTail
  refine .peek fun k hk => ?_
  split
  · rename_i op hop
    exact assignment_keeps h ho left op (hk ▸ isSilent_of_assignOp? hop)
  · split
    · split
      · exact .skip hk rfl fun _ => .bind (expr_keeps h ho) fun v _ => .built _ rfl (by simp)
      · exact .skip hk rfl fun _ => .built _ rfl (by simp)
      · exact .skip hk rfl fun _ => .built _ rfl (by simp)
      · exact .built _ rfl (by simp)
    · exact .unexpected _

theorem simple_keeps : KeepsIn o [] (fun s => (Node.simple s).words) ts (simple rec) := by
  unfold simple
  exact .chain (exprs_keeps h ho) fun left _ => simpleTail_keeps h ho left

/-! ## Control statements -/

omit ho in
theorem block_keeps : KeepsIn o [] (fun b => wordsOf (b.map .stmt)) ts (block rec) := by
  unfold block
  refine .expect_opening .brace fun _ => .bind (h .stmts _ _ untagged) fun ss _ => ?_
  exact .expect_closing .brace fun _ => .of_pure rfl

omit h ho in
theorem isSilent_of_isSemicolon {k : Kind} (hk : k.isSemicolon = true) : k.isSilent = true := by
  rcases isSemicolon_iff.mp hk with rfl | rfl <;> rfl

theorem initAndLast_keeps :
    KeepsIn o [] (fun head => wordsOf ((head.1.toList ++ head.2.toList).map .simple)) ts
      (initAndLast rec) := by
  unfold initAndLast
  have hlast : ∀ (fst : Option Simple) zs, KeepsIn o (wordsOf (fst.toList.map .simple))
      (fun head => wordsOf ((head.1.toList ++ head.2.toList).map .simple)) zs
      (atSemicolon >>= fun b => if b = true then do
        skip
        if ← atSymbol .lbrace then return (fst, none)
        let s ← simple rec
        return (fst, some s)
      else return (none, fst)) := fun fst zs => by
    refine .atSemicolon (fun hk => ?_) (.of_pure (by simp))
    refine .skip rfl (isSilent_of_isSemicolon hk) fun _ => .atSymbol (fun _ => ?_) ?_
    · exact .of_pure (by simp)
    · exact .bind (simple_keeps h ho) fun s _ => .of_pure (by simp)
  refine .atSemicolon (fun _ => hlast none _) ?_
  exact .bind (simple_keeps h ho) fun s _ => .pure_bind ((hlast (some s) _).cast (by simp))

omit h ho in
theorem condition_keeps (s : Option Simple) :
    KeepsExpr o (wordsOf (s.toList.map .simple)) ts (condition s) := by
  unfold condition
  split
  · exact .of_pure (by simp [Node.words_eq (.simple _)])
  · exact .fail _
  · exact .fail _

theorem elseBranch_keeps :
    KeepsIn o [] (fun s => wordsOf (s.toList.map .stmt)) ts (elseBranch rec) := by
  unfold elseBranch
  refine .peek fun k hk => ?_
  split
  · rename_i he
    refine .skip hk (eq_of_beq he ▸ rfl) fun _ => .peek fun k _ => ?_
    split
    · exact .bind (h .conditional _ _ ho) fun s _ => .of_pure (by simp)
    · refine .bind (block_keeps h) fun b _ => .of_pure ?_
      simp [Node.words_eq (.stmt _)]
    · exact .unexpected _
  · exact .of_pure rfl

theorem conditional_keeps : KeepsIn o [] (fun s => (Node.stmt s).words) ts (conditional rec) := by
  unfold conditional
  refine .expectKeyword rfl fun _ => ?_
  extract_lets rest
  have hrest : ∀ zs, KeepsIn o [] (fun s => (Node.stmt s).words) zs (rest ()) := fun zs => by
    refine .bind (.header (initAndLast_keeps h ho)) fun head _ => ?_
    have hcond : ∀ zs, KeepsIn o (wordsOf ((head.1.toList ++ head.2.toList).map .simple))
        (fun x => wordsOf (head.1.toList.map .simple) ++ (Node.expr x).words) zs
        (condition head.2) := fun zs =>
      ((condition_keeps head.2).frame _).cast (by simp)
    refine .chain (hcond _) fun cond _ => .bind (block_keeps h) fun body _ => ?_
    exact .bind (elseBranch_keeps h ho) fun orElse _ => .built _ rfl (by simp)
  exact .atSymbol (fun _ => .fail_bind _ _) (.pure_bind (hrest _))

theorem caseClause_keeps :
    KeepsIn o [] (fun c => (Node.caseClause c).words) ts (caseClause rec) := by
  unfold caseClause
  refine .peek fun k hk => ?_
  extract_lets rest
  have hrest : ∀ (es : Option (List Expr)) zs, KeepsIn o (wordsOf ((es.getD []).map .expr))
      (fun c => (Node.caseClause c).words) zs (rest es) := fun es zs =>
    .expect rfl fun _ => .bind (h .stmts _ _ ho) fun ss _ => .built _ rfl (by simp)
  split
  · refine .skip hk rfl fun _ => .bind (exprs_keeps h ho) fun xs _ => .pure_bind ?_
    exact hrest (some xs) _
  · exact .skip hk rfl fun _ => .pure_bind (hrest none _)
  · exact .unexpected_bind _ _

theorem caseClauses_keeps :
    KeepsIn o [] (fun cs => wordsOf (cs.map .caseClause)) ts (caseClauses rec) := by
  unfold caseClauses
  refine .atListEnd fun b => ?_
  split
  · exact .of_pure rfl
  · refine .bind (caseClause_keeps h ho) fun c _ => .bind (h .caseClauses _ _ ho) fun cs _ => ?_
    exact .of_pure (by simp)

theorem switch_keeps : KeepsIn o [] (fun s => (Node.stmt s).words) ts (switch rec) := by
  unfold switch
  have hhead : ∀ zs, KeepsIn o []
      (fun head => wordsOf ((head.1.toList ++ head.2.toList).map .simple)) zs
      (header (atSymbol .lbrace >>= fun b =>
        if b = true then pure (none, none) else initAndLast rec)) := fun zs =>
    .header (.atSymbol (fun _ => .of_pure rfl) (initAndLast_keeps h ho))
  refine .expectKeyword rfl fun _ => .bind (hhead _) fun head _ => ?_
  refine .expect_opening .brace fun _ => .bind (h .caseClauses _ _ untagged) fun cs _ => ?_
  exact .expect_closing .brace fun _ => .built _ rfl (by simp)

theorem commClause_keeps :
    KeepsIn o [] (fun c => (Node.commClause c).words) ts (commClause rec) := by
  unfold commClause
  refine .peek fun k hk => ?_
  extract_lets rest
  have hrest : ∀ (comm : Option Simple) zs, KeepsIn o (wordsOf (comm.toList.map .simple))
      (fun c => (Node.commClause c).words) zs (rest comm) := fun comm zs =>
    .expect rfl fun _ => .bind (h .stmts _ _ ho) fun ss _ => .built _ rfl (by simp)
  split
  · refine .skip hk rfl fun _ => .bind (simple_keeps h ho) fun s _ => .pure_bind ?_
    exact (hrest (some s) _).cast (by simp)
  · exact .skip hk rfl fun _ => .pure_bind (hrest none _)
  · exact .unexpected_bind _ _

theorem commClauses_keeps :
    KeepsIn o [] (fun cs => wordsOf (cs.map .commClause)) ts (commClauses rec) := by
  unfold commClauses
  refine .atListEnd fun b => ?_
  split
  · exact .of_pure rfl
  · refine .bind (commClause_keeps h ho) fun c _ => .bind (h .commClauses _ _ ho) fun cs _ => ?_
    exact .of_pure (by simp)

omit ho in
theorem select_keeps : KeepsIn o [] (fun s => (Node.stmt s).words) ts (select rec) := by
  unfold select
  refine .expectKeyword rfl fun _ => .expect_opening .brace fun _ => ?_
  refine .bind (h .commClauses _ _ untagged) fun cs _ => ?_
  exact .expect_closing .brace fun _ => .built _ rfl (by simp)

end Phrases

/-- The words of the header of a loop. -/
def Grammar.LoopHeader.words : LoopHeader → List Word
  | .range key value _ operand =>
    wordsOf ((key.toList ++ value.toList ++ [operand]).map .expr)
  | .clauses init cond post =>
    wordsOf ((init.toList ++ cond.toList ++ post.toList).map .simple)

attribute [local simp] LoopHeader.words

section Phrases

variable {rec : Phrases} {o : List Bool} {ts : List Token} (h : Phrases.Keep rec)
  (ho : o.head? ≠ some true)

include h ho

theorem rangeOver_keeps (left : List Expr) (define : Bool)
    (hk : (headKind ts).isSilent = true) :
    KeepsIn o (wordsOf (left.map .expr)) LoopHeader.words ts (rangeOver rec left define) := by
  unfold rangeOver
  refine .skip rfl hk fun _ => .bind (expr_keeps h ho) fun x _ => ?_
  extract_lets done
  split
  · exact .fail_bind _ _
  · refine .pure_bind (.of_pure ?_)
    match left with
    | [] => simp
    | [k] => simp
    | [k, v] => simp
    | _ :: _ :: _ :: _ => simp at *

theorem loopClauses_keeps (init : Option Simple) (hk : (headKind ts).isSemicolon = true) :
    KeepsIn o (wordsOf (init.toList.map .simple)) LoopHeader.words ts (loopClauses rec init) := by
  unfold loopClauses
  refine .skip rfl (isSilent_of_isSemicolon hk) fun _ => ?_
  extract_lets rest
  have hrest : ∀ (cond : Option Simple) zs,
      KeepsIn o (wordsOf ((init.toList ++ cond.toList).map .simple)) LoopHeader.words zs
        (rest cond) := fun cond zs => by
    refine .atSemicolon (fun hs => ?_) (.unexpected_bind _ _)
    refine .skip rfl (isSilent_of_isSemicolon hs) fun _ => .atSymbol (fun _ => ?_) ?_
    · exact .of_pure (by simp)
    · exact .bind (simple_keeps h ho) fun post _ => .of_pure (by simp)
  refine .atSemicolon (fun _ => .pure_bind ((hrest none _).cast (by simp))) ?_
  exact .bind (simple_keeps h ho) fun s _ => .pure_bind ((hrest (some s) _).cast (by simp))

theorem loopFrom_keeps (left : List Expr) :
    KeepsIn o (wordsOf (left.map .expr)) LoopHeader.words ts (loopFrom rec left) := by
  unfold loopFrom
  refine .peek fun k hk => .peekSecond fun second hs => ?_
  split
  · exact .skip_tail (hk ▸ rfl) (rangeOver_keeps h ho left true (hs ▸ rfl))
  · exact .skip_tail (hk ▸ rfl) (rangeOver_keeps h ho left false (hs ▸ rfl))
  · refine .chain (simpleTail_keeps h ho left) fun s _ => .atSemicolon (fun hs => ?_) ?_
    · exact (loopClauses_keeps h ho (some s) hs).cast (by simp)
    · exact .of_pure (by simp)

theorem loopHeader_keeps : KeepsIn o [] LoopHeader.words ts (loopHeader rec) := by
  unfold loopHeader
  refine .atSymbol (fun _ => .of_pure rfl) (.atSemicolon (fun hk => ?_) ?_)
  · exact loopClauses_keeps h ho none hk
  · refine .peek fun k hk => ?_
    split
    · rename_i hr
      refine rangeOver_keeps h ho [] _ ?_
      rw [hk, eq_of_beq hr]
      rfl
    · exact .chain (exprs_keeps h ho) fun left _ => loopFrom_keeps h ho left

theorem loop_keeps : KeepsIn o [] (fun s => (Node.stmt s).words) ts (loop rec) := by
  unfold loop
  refine .expectKeyword rfl fun _ => .bind (.header (loopHeader_keeps h ho)) fun head _ => ?_
  refine .bind (block_keeps h) fun body _ => ?_
  split
  · exact .built _ rfl (by simp)
  · exact .built _ rfl (by simp)
  · exact .built _ rfl (by simp [Node.words_eq (.simple _)])
  · exact .fail _

/-! ## Declarations -/

theorem valueSpec_keeps (kw : ValueKeyword) (first : Bool) :
    KeepsIn o [] (fun spec => (Node.valueSpec spec).words) ts (valueSpec rec kw first) := by
  unfold valueSpec
  refine .bind (names_keeps h) fun ns _ => .peek fun k _ => ?_
  extract_lets typed
  have htyped : ∀ (t : Option Expr) zs, KeepsIn o (ns.map .name ++ wordsOf (t.toList.map .expr))
      (fun spec => (Node.valueSpec spec).words) zs (typed t) := fun t zs => by
    have hchecked : ∀ (b : Bool) (f : SyntaxFault) (vs : List Expr) zs,
        KeepsIn o (ns.map .name ++ wordsOf (t.toList.map .expr) ++ wordsOf (vs.map .expr))
          (fun spec => (Node.valueSpec spec).words) zs
          (if b = true then (Read.fail f : Read Unit) >>= fun _ => pure (.mk ns t vs)
            else pure (.mk ns t vs)) := by
      intro b f vs zs
      split
      · exact .fail_bind _ _
      · exact .built _ rfl (by simp)
    refine .atSymbol (fun hk => .skip hk rfl fun _ => .bind (exprs_keeps h ho) fun vs _ => ?_) ?_
    · cases kw <;> exact .pure_bind (hchecked _ _ _ _)
    · cases kw <;> exact .pure_bind ((hchecked _ _ [] _).cast (by simp))
  split
  · exact .pure_bind ((htyped none _).cast (by simp))
  · exact .bind h.type fun t _ => .pure_bind ((htyped (some t) _).cast (by simp))

theorem valueSpecs_keeps (kw : ValueKeyword) (first : Bool) :
    KeepsIn o [] (fun ss => wordsOf (ss.map .valueSpec)) ts (valueSpecs rec kw first) := by
  unfold valueSpecs
  refine .atListEnd fun b => ?_
  split
  · exact .of_pure rfl
  · refine .bind (valueSpec_keeps h ho kw first) fun s _ => .bind .statementEnd fun _ _ => ?_
    exact .bind (h (.valueSpecs _ _) _ _ ho) fun ss _ => .of_pure (by simp)

omit ho in
theorem typeSpec_keeps :
    KeepsIn o [] (fun spec => (Node.typeSpec spec).words) ts (typeSpec rec) := by
  unfold typeSpec
  refine .expectName fun n _ => ?_
  have htype : ∀ isAlias zs, KeepsIn o [.name n] (fun spec => (Node.typeSpec spec).words) zs
      (rec .type >>= fun t => pure (TypeSpec.mk n isAlias t)) := fun isAlias zs =>
    .bind h.type fun t _ => .built _ rfl (by simp)
  refine .atSymbol (fun hk => ?_) (htype _ _)
  exact .skip hk rfl fun _ => htype _ _

theorem typeSpecs_keeps :
    KeepsIn o [] (fun ss => wordsOf (ss.map .typeSpec)) ts (typeSpecs rec) := by
  unfold typeSpecs
  refine .atListEnd fun b => ?_
  split
  · exact .of_pure rfl
  · refine .bind (typeSpec_keeps h) fun s _ => .bind .statementEnd fun _ _ => ?_
    exact .bind (h .typeSpecs _ _ ho) fun ss _ => .of_pure (by simp)

omit h ho in
/-- The lines of a declaration stand between parentheses, or there is one line. -/
theorem group_keeps {α : Type} {toNode : α → Node} {lines : Read (List α)} {line : Read α}
    (hlines : ∀ zs, KeepsIn (false :: o) [] (fun ss => wordsOf (ss.map toNode)) zs lines)
    (hline : ∀ zs, KeepsIn o [] (fun s => (toNode s).words) zs line) :
    KeepsIn o [] (fun ss => wordsOf (ss.map toNode)) ts (group lines line) := by
  unfold group
  refine .atSymbol (fun hk => ?_) (.bind (hline _) fun l _ => .of_pure (by simp))
  refine .skip_opening .paren hk fun _ => .bind (hlines _) fun ls _ => ?_
  exact .expect_closing .paren fun _ => .of_pure rfl

theorem valueDecl_keeps (kw : ValueKeyword) (hk : (headKind ts).isSilent = true) :
    KeepsIn o [] (fun s => (Node.stmt s).words) ts (valueDecl rec kw) := by
  unfold valueDecl
  have hgroup : ∀ zs, KeepsIn o [] (fun ss => wordsOf (ss.map .valueSpec)) zs
      (group (rec (.valueSpecs kw true)) (valueSpec rec kw true)) := fun zs =>
    group_keeps (fun _ => h (.valueSpecs kw true) _ _ untagged)
      fun _ => valueSpec_keeps h ho kw true
  exact .skip rfl hk fun _ => .bind (hgroup _) fun ss _ => .built _ rfl (by simp)

omit ho in
theorem typeDecl_keeps (hk : (headKind ts).isSilent = true) :
    KeepsIn o [] (fun s => (Node.stmt s).words) ts (typeDecl rec) := by
  unfold typeDecl
  have hgroup : ∀ zs, KeepsIn o [] (fun ss => wordsOf (ss.map .typeSpec)) zs
      (group (rec .typeSpecs) (typeSpec rec)) := fun zs =>
    group_keeps (fun _ => h .typeSpecs _ _ untagged) fun _ => typeSpec_keeps h
  exact .skip rfl hk fun _ => .bind (hgroup _) fun ss _ => .built _ rfl (by simp)

/-! ## Statements -/

theorem launched_keeps (w : Keyword) (hk : (headKind ts).isSilent = true) :
    KeepsExpr o [] ts (launched rec w) := by
  unfold launched
  refine .skip rfl hk fun _ => .bind (expr_keeps h ho) fun x _ => ?_
  split
  · exact .of_pure rfl
  · exact .fail _

theorem results_keeps (hk : (headKind ts).isSilent = true) :
    KeepsIn o [] (fun xs => wordsOf (xs.map .expr)) ts (results rec) := by
  unfold results
  refine .skip rfl hk fun _ => .peek fun k _ => ?_
  split
  all_goals first | exact .of_pure rfl | exact exprs_keeps h ho

omit h ho in
theorem branch_keeps (kw : BranchKeyword) (hk : (headKind ts).isSilent = true) :
    KeepsIn o [] (fun s => (Node.stmt s).words) ts (branch kw) := by
  unfold branch
  refine .skip rfl hk fun _ => .peek fun k hk => ?_
  split
  · exact .built _ rfl (by simp)
  · exact .skip_name hk fun _ => .built _ rfl (by simp)
  · exact .built _ rfl (by simp)

theorem labeled_keeps (l : String) (hk : (headKind ts).isSilent = true) :
    KeepsIn o [.name l] (fun s => (Node.stmt s).words) ts (labeled rec l) := by
  unfold labeled
  refine .skip rfl hk fun _ => .peek fun k _ => ?_
  split
  · exact .built _ rfl (by simp [Node.words_eq (.stmt .empty)])
  · exact .built _ rfl (by simp [Node.words_eq (.stmt .empty)])
  · exact .bind (h .stmt _ _ ho) fun s _ => .built _ rfl (by simp)

/-- A label is read as an expression first. -/
theorem simpleOrLabeled_keeps :
    KeepsIn o [] (fun s => (Node.stmt s).words) ts (simpleOrLabeled rec) := by
  unfold simpleOrLabeled
  refine .chain (exprs_keeps h ho) fun left _ => .peek fun k hk => ?_
  split
  · refine (labeled_keeps h ho _ (hk ▸ rfl)).cast ?_
    simp [Node.words_eq (.expr (.name _))]
  · refine .chain (simpleTail_keeps h ho left) fun s _ => .bind .statementEnd fun _ _ => ?_
    exact .built _ rfl (by simp)

omit h ho in
theorem ended_keeps {α : Type} {words : α → List Word} {p : Read α}
    (hp : KeepsIn o [] words ts p) : KeepsIn o [] words ts (ended p) := by
  unfold ended
  exact .bind hp fun a _ => .bind .statementEnd fun _ _ => .of_pure (by simp)

theorem stmt_keeps : KeepsIn o [] (fun s => (Node.stmt s).words) ts (stmt rec) := by
  unfold stmt
  refine .peek fun k hk => ?_
  split
  · exact simpleOrLabeled_keeps h ho
  split
  · exact ended_keeps (valueDecl_keeps h ho _ (hk ▸ rfl))
  · exact ended_keeps (valueDecl_keeps h ho _ (hk ▸ rfl))
  · exact ended_keeps (typeDecl_keeps h (hk ▸ rfl))
  · refine ended_keeps (.bind (launched_keeps h ho _ (hk ▸ rfl)) fun x _ => ?_)
    exact .built _ rfl (by simp)
  · refine ended_keeps (.bind (launched_keeps h ho _ (hk ▸ rfl)) fun x _ => ?_)
    exact .built _ rfl (by simp)
  · refine ended_keeps (.bind (results_keeps h ho (hk ▸ rfl)) fun xs _ => ?_)
    exact .built _ rfl (by simp)
  · exact ended_keeps (branch_keeps _ (hk ▸ rfl))
  · exact ended_keeps (branch_keeps _ (hk ▸ rfl))
  · exact ended_keeps (branch_keeps _ (hk ▸ rfl))
  · exact ended_keeps (branch_keeps _ (hk ▸ rfl))
  · exact ended_keeps (.bind (block_keeps h) fun b _ => .built _ rfl (by simp))
  · exact ended_keeps (conditional_keeps h ho)
  · exact ended_keeps (switch_keeps h ho)
  · exact ended_keeps (select_keeps h)
  · exact ended_keeps (loop_keeps h ho)
  · exact .skip hk rfl fun _ => .built _ rfl (by simp)
  · exact .skip hk rfl fun _ => .built _ rfl (by simp)
  · exact .built _ rfl (by simp)
  · exact .built _ rfl (by simp)
  · exact .unexpected _

theorem stmts_keeps : KeepsIn o [] (fun ss => wordsOf (ss.map .stmt)) ts (stmts rec) := by
  unfold stmts
  refine .peek fun k _ => ?_
  split
  · exact .of_pure rfl
  · exact .bind (stmt_keeps h ho) fun s _ => .bind (h .stmts _ _ ho) fun ss _ => .of_pure (by simp)

end Phrases

/-! ## All phrases -/

theorem step_keep {rec : Phrases} (h : Phrases.Keep rec) : Phrases.Keep (Phrase.step rec) := by
  intro α ph o ts ho
  cases ph with
  | binary prec => exact binary_keeps h ho prec
  | binaryTail prec x => exact binaryTail_keeps h ho prec x
  | unary => exact unary_keeps h ho
  | primaryTail x => exact primaryTail_keeps h ho x
  | exprsTail => exact exprsTail_keeps h ho
  | args => exact args_keeps h ho
  | elems => exact elems_keeps h ho
  | type => exact type_keeps h
  | typesTail => exact typesTail_keeps h ho
  | typeArgsTail => exact typeArgsTail_keeps h ho
  | namesTail => exact namesTail_keeps h
  | fields => exact fields_keeps h ho
  | interfaceItems => exact interfaceItems_keeps h ho
  | unionTail => exact unionTail_keeps h ho
  | params => exact params_keeps h ho
  | stmt => exact stmt_keeps h ho
  | stmts => exact stmts_keeps h ho
  | conditional => exact conditional_keeps h ho
  | caseClauses => exact caseClauses_keeps h ho
  | commClauses => exact commClauses_keeps h ho
  | valueSpecs kw first => exact valueSpecs_keeps h ho kw first
  | typeSpecs => exact typeSpecs_keeps h ho

/-- However deep the phrases nest, they keep the words. -/
theorem read_keep (depth : Nat) : Phrases.Keep (Phrase.read depth) := by
  induction depth with
  | zero => exact fun _ _ _ _ => .fail _
  | succ depth ih => exact step_keep ih

end GoRepl.Syntax
