import GoRepl.Proofs.Syntax.BeforeBlock

/-! # Expressions in front of a block

An expression without braces and functions reads the same in front of a block, with one exception:
if it ends with an operand that may be the type of a literal, and the nesting level allows that, the
`{` of the block is taken for the body of that literal.

* `operand_extends`, `primary_extends`, `unary_extends`, `binary_extends`: expressions by how
  tightly they bind.
* `primaryTail_extends`: what extends an operand.
* `read_simulates`: the readers of the grammar.
-/

namespace GoRepl.Syntax

open Read Grammar

section Step

variable {tl rest ys : List Token} {rec rec' : Phrases} (h : Simulates tl rest rec rec')

include h

/-! ## Operands -/

theorem operand_extends (hy : Plain ys) :
    Extends tl (.same tl) Expr.IsPrimary ys (operand rec) (operand rec') := by
  have htype := type_extends h hy
  unfold operand
  cases ys with
  | nil => exact .peek_nil h.block.head (.unexpected _)
  | cons t ts =>
    have ht : t.kind.isPlain = true := hy t List.mem_cons_self
    have hprimary : t.kind ≠ .symbol (.binary (.arith .mul)) →
        Extends tl (.same tl) Expr.IsPrimary (t :: ts) (type rec) (type rec') :=
      fun hne => htype.weaken fun _ hx => hx hne
    refine .peek ?_
    split
    · exact .skip (.of_pure trivial)
    · exact .skip (.of_pure trivial)
    · refine .skip (.bind_expect h.block.head (by decide) (h.binary 1 ts hy.tail).nested ?_)
      exact fun _ _ _ _ => .of_pure trivial
    · rename_i hk
      rw [hk] at ht
      cases ht
    all_goals first
      | exact .unexpected _
      | exact hprimary (by simp [*])

theorem primary_extends (hy : Plain ys) :
    Extends tl (.operand tl rest) Expr.IsPrimary ys (primary rec) (primary rec') := by
  unfold primary
  exact (operand_extends h hy).bind_same fun x zs hzs hx => h.primaryTail x zs hx (hy.suffix hzs)

end Step

/-! ## Operators -/

/-- What `k` makes of an expression ends with the same operand. -/
def KeepsLast (k : Expr → Read Expr) : Prop :=
  ∀ x s b s', k x s = .ok (b, s') → s' = s ∧ (∀ u, k x u = .ok (b, u)) ∧
    ∀ l, opensLiteral b.lastOperand l = opensLiteral x.lastOperand l ∧
      (opensLiteral x.lastOperand l = true → ∀ u, k x.withBody u = .ok (b.withBody, u))

theorem keepsLast_unary (op : UnaryOp) : KeepsLast fun x => pure (.unary op x) := by
  intro x s b s' hk
  cases hk
  exact ⟨rfl, fun _ => rfl, fun _ => ⟨rfl, fun _ _ => rfl⟩⟩

theorem keepsLast_star : KeepsLast fun x => pure (.star x) := by
  intro x s b s' hk
  cases hk
  exact ⟨rfl, fun _ => rfl, fun _ => ⟨rfl, fun _ _ => rfl⟩⟩

theorem keepsLast_receive : KeepsLast receive := by
  intro x s b s' hk
  cases x
  case chanType dir t =>
    cases dir
    case both =>
      cases hk
      exact ⟨rfl, fun _ => rfl, fun _ => ⟨rfl, fun ho => by cases ho⟩⟩
    all_goals cases hk
  all_goals
    cases hk
    exact ⟨rfl, fun _ => rfl, fun _ => ⟨rfl, fun _ _ => rfl⟩⟩

theorem Extends.bind_last {tl rest ys : List Token} {p q : Read Expr} {k : Expr → Read Expr}
    (hp : Extends tl (.expression tl rest) (fun _ => True) ys p q) (hk : KeepsLast k) :
    Extends tl (.expression tl rest) (fun _ => True) ys (p >>= k) (q >>= k) := by
  refine hp.bind ?_ ?_
  · intro x zs _ hz _ l b s hkx
    obtain ⟨rfl, hkb, -⟩ := hk x _ b s hkx
    exact ⟨zs, rfl, List.suffix_refl zs, trivial, fun l' =>
      ⟨fun _ => hkb _, fun hz' => absurd hz' hz⟩⟩
  · intro x l b s _ hkx
    obtain ⟨rfl, hkb, hlast⟩ := hk x _ b s hkx
    refine ⟨rfl, trivial, fun l' r hr => ?_⟩
    obtain ⟨ho, hbody⟩ := hlast l'
    rw [Ending.expression, ho]
    rw [Ending.expression] at hr
    subst hr
    split
    · rename_i hopen
      exact hbody hopen _
    · exact hkb _

section Step

variable {tl rest ys : List Token} {rec rec' : Phrases} (h : Simulates tl rest rec rec')

include h

theorem unary_extends (hy : Plain ys) :
    Extends tl (.expression tl rest) (fun _ => True) ys (unary rec) (unary rec') := by
  have hprimary := (primary_extends h hy).expression
  unfold unary
  cases ys with
  | nil => exact .peek_nil h.block.head hprimary
  | cons t ts =>
    refine .peek ?_
    have hx := h.unary ts hy.tail
    split
    · exact .skip (hx.bind_last (keepsLast_unary _))
    · split
      · exact .skip (hx.bind_last keepsLast_receive)
      · split
        · exact .skip (hx.bind_last keepsLast_star)
        · exact hprimary

/-- An expression and what extends it, where `f` puts it behind what stands to its left. -/
theorem bind_binaryTail {p q : Read Expr} (prec : Nat) {f : Expr → Expr}
    (hlast : ∀ x, (f x).lastOperand = x.lastOperand) (hbody : ∀ x, (f x).withBody = f x.withBody)
    (hy : Plain ys) (hp : Extends tl (.expression tl rest) (fun _ => True) ys p q) :
    Extends tl (.expression tl rest) (fun _ => True) ys
      (p >>= fun x => rec (.binaryTail prec (f x)))
      (q >>= fun x => rec' (.binaryTail prec (f x))) := by
  refine hp.bind ?_ ?_
  · intro x zs hzs hz _
    obtain ⟨u, us, rfl⟩ := List.exists_cons_of_ne_nil hz
    exact h.binaryTail prec (f x) u us (hy.suffix hzs)
  · -- no operator follows without the block; with it the operators stop at it or behind it
    intro x l b s _ hk
    obtain ⟨rfl, rfl⟩ := h.binaryTail_nil prec (f x) l b s hk
    refine ⟨rfl, trivial, fun l' r hr => ?_⟩
    rw [Ending.expression] at hr ⊢
    rw [hlast, hbody]
    subst hr
    split
    · exact h.stops.binaryTail_rest prec _ l'
    · exact h.stops.binaryTail_block prec _ l'

theorem binaryTail_extends {t : Token} {ts : List Token} (hy : Plain (t :: ts)) (prec : Nat)
    (left : Expr) : Extends tl (.expression tl rest) (fun _ => True) (t :: ts)
      (binaryTail rec prec left) (binaryTail rec' prec left) := by
  unfold binaryTail
  refine .peek ?_
  split
  · rename_i op _
    split
    · exact .of_pure_cons trivial
    · refine .skip ?_
      exact bind_binaryTail h prec (fun _ => rfl) (fun _ => rfl) hy.tail (h.binary _ ts hy.tail)
  · exact .of_pure_cons trivial

theorem binary_extends (hy : Plain ys) (prec : Nat) :
    Extends tl (.expression tl rest) (fun _ => True) ys (binary rec prec) (binary rec' prec) := by
  unfold binary
  exact bind_binaryTail h (f := fun x => x) prec (fun _ => rfl) (fun _ => rfl) hy
    (unary_extends h hy)

theorem expr_extends (hy : Plain ys) :
    Extends tl (.expression tl rest) (fun _ => True) ys (expr rec) (expr rec') :=
  binary_extends h hy 1

end Step

/-! ## What follows an operand -/

/-- What follows an argument of a call. -/
def moreArgs (rec : Phrases) (x : Expr) (spread : Bool) : Read (List Expr × Bool) := do
  if ← atSymbol .comma then do
    skip
    let (xs, more) ← rec .args
    return (x :: xs, spread || more)
  else return ([x], spread)

section Step

variable {tl rest ys : List Token} {rec rec' : Phrases} (h : Simulates tl rest rec rec')

include h

theorem moreArgs_extends (hy : Plain ys) (x : Expr) (spread : Bool) :
    Extends tl .any (fun _ => True) ys (moreArgs rec x spread) (moreArgs rec' x spread) := by
  unfold moreArgs
  refine .ite_atSymbol h.block.head (by decide) ?_ (Extends.of_pure trivial).any
  rintro t ts rfl
  refine .skip ((h.args ts hy.tail).bind_any fun r zs _ _ => ?_)
  exact (Extends.of_pure trivial).any

theorem args_extends (hy : Plain ys) :
    Extends tl .any (fun _ => True) ys (args rec) (args rec') := by
  unfold args atListEnd
  rw [bind_assoc, bind_assoc]
  cases ys with
  | nil =>
    -- without the block the arguments end here; a bracket is wanted next, so this comes to nothing
    intro l a s hp
    cases hp
    exact ⟨[], rfl, List.nil_suffix, trivial, fun l' =>
      ⟨fun hne => absurd rfl hne, fun _ => trivial⟩⟩
  | cons t ts =>
    refine .peek ?_
    rw [pure_bind, pure_bind]
    split
    · exact .of_pure_cons trivial
    · refine (expr_extends h hy).bind_any fun x zs hzs _ => ?_
      have hz := hy.suffix hzs
      refine .atSymbol h.block.head (by decide) ?_ (moreArgs_extends h hz x false)
      rintro u us rfl
      exact .skip (moreArgs_extends h hz.tail x true)

theorem bound_extends (hy : Plain ys) :
    Extends tl .any (fun _ => True) ys (indexOrSlice.bound rec) (indexOrSlice.bound rec') := by
  unfold indexOrSlice.bound
  refine .atSymbol h.block.head (by decide) ?_ (.atSymbol h.block.head (by decide) ?_ ?_)
  · rintro t ts rfl
    refine .atSymbol h.block.head (by decide) (fun _ _ _ => ?_) ?_
    all_goals exact (Extends.of_pure trivial).any
  · rintro t ts rfl
    exact (Extends.of_pure trivial).any
  · exact (h.binary 1 ys hy).bind_any fun i zs _ _ => (Extends.of_pure trivial).any

end Step

/-- What follows the first index. -/
def sliceOrIndex (rec : Phrases) (x : Expr) (low : Option Expr) : Read (Expr × Bool) := do
  if ← atSymbol .colon then do
    skip
    let high ← indexOrSlice.bound rec
    if ← atSymbol .colon then do
      skip
      let max ← indexOrSlice.bound rec
      return (.slice x low high max, !(high.isSome && max.isSome))
    else return (.slice x low high none, false)
  else do
    let ts ← rec .typeArgsTail
    return (.index x (low.toList ++ ts), false)

theorem indexOrSlice_eq (rec : Phrases) (x : Expr) :
    indexOrSlice rec x = expect .lbrack >>= fun _ =>
      nested (atSymbol .colon >>= fun b =>
        if b = true then sliceOrIndex rec x none
        else expr rec >>= fun i => sliceOrIndex rec x (some i)) >>= fun made =>
      expect .rbrack >>= fun _ =>
        if made.2 = true then fail .sliceIndices else pure made.1 := by
  unfold indexOrSlice
  simp only [pure_bind]
  rfl

section Step

variable {tl rest ys : List Token} {rec rec' : Phrases} (h : Simulates tl rest rec rec')

include h

theorem sliceOrIndex_extends (hy : Plain ys) (x : Expr) (low : Option Expr) :
    Extends tl .any (fun made => made.1.IsPrimary) ys (sliceOrIndex rec x low)
      (sliceOrIndex rec' x low) := by
  unfold sliceOrIndex
  refine .ite_atSymbol h.block.head (by decide) ?_ ?_
  · rintro t ts rfl
    refine .skip ((bound_extends h hy.tail).bind_any fun high zs hzs _ => ?_)
    have hz := hy.tail.suffix hzs
    refine .ite_atSymbol h.block.head (by decide) ?_ (Extends.of_pure trivial).any
    rintro u us rfl
    refine .skip ((bound_extends h hz.tail).bind_any fun max vs _ _ => ?_)
    exact (Extends.of_pure trivial).any
  · exact (h.typeArgsTail ys hy).bind_any fun ts zs _ _ => (Extends.of_pure trivial).any

theorem indexOrSlice_extends (hy : Plain ys) (x : Expr) :
    Extends tl (.same tl) Expr.IsPrimary ys (indexOrSlice rec x) (indexOrSlice rec' x) := by
  rw [indexOrSlice_eq, indexOrSlice_eq]
  refine .expect h.block.head (by decide) ?_
  rintro t ts rfl
  have hmade : Extends tl .any (fun made => made.1.IsPrimary) ts
      (atSymbol .colon >>= fun b => if b = true then sliceOrIndex rec x none
        else expr rec >>= fun i => sliceOrIndex rec x (some i))
      (atSymbol .colon >>= fun b => if b = true then sliceOrIndex rec' x none
        else expr rec' >>= fun i => sliceOrIndex rec' x (some i)) := by
    refine .ite_atSymbol h.block.head (by decide) ?_ ?_
    · rintro u us rfl
      exact sliceOrIndex_extends h hy.tail x none
    · refine (expr_extends h hy.tail).bind_any fun i zs hzs _ => ?_
      exact sliceOrIndex_extends h (hy.tail.suffix hzs) x (some i)
  refine .bind_expect h.block.head (by decide) hmade.nested fun made zs _ hm => ?_
  split
  · exact .fail _
  · exact .of_pure hm

theorem call_extends (hy : Plain ys) (fn : Expr) :
    Extends tl (.same tl) Expr.IsPrimary ys (call rec fn) (call rec' fn) := by
  unfold call
  refine .expect h.block.head (by decide) ?_
  rintro t ts rfl
  refine .bind_expect h.block.head (by decide) (h.args ts hy.tail).nested fun r zs _ _ => ?_
  exact .of_pure trivial

theorem selectorOrAssertion_extends (hy : Plain ys) (x : Expr) :
    Extends tl (.same tl) Expr.IsPrimary ys (selectorOrAssertion rec x)
      (selectorOrAssertion rec' x) := by
  unfold selectorOrAssertion
  cases ys with
  | nil => exact .peek_nil h.block.head (.unexpected _)
  | cons t ts =>
    refine .peek ?_
    split
    · exact .skip (.of_pure trivial)
    · refine .skip ?_
      simp only [pure_bind]
      have hasserted : Extends tl (.same tl) Expr.IsPrimary ts
          (rec .type >>= fun a => expect .rparen >>= fun _ => pure (Expr.assertion x (some a)))
          (rec' .type >>= fun a =>
            expect .rparen >>= fun _ => pure (Expr.assertion x (some a))) := by
        refine .bind_expect h.block.head (by decide) (h.type ts hy.tail) fun a zs _ _ => ?_
        exact .of_pure trivial
      cases ts with
      | nil => exact .peek_nil h.block.head hasserted
      | cons u us =>
        refine .peek ?_
        split
        · refine .skip (.expect h.block.head (by decide) ?_)
          rintro v vs rfl
          exact .of_pure trivial
        · exact hasserted
    · exact .unexpected _

/-- The braces of the block as the body of a literal. -/
theorem composite_block (x : Expr) (l : Int) :
    composite rec' (some x) ⟨tl, l⟩ = .ok (.composite (some x) [], ⟨rest, l⟩) := by
  unfold composite
  rw [bind_of_ok (expect_of_head h.block.head l),
    bind_of_ok (nested_of_ok (h.stops.elems (l + 1))),
    bind_of_ok (expect_of_head h.block.second l), h.block.rest_eq]
  rfl

theorem primaryTail_nil (x : Expr) (hx : x.IsPrimary) :
    Extends tl (.operand tl rest) Expr.IsPrimary [] (primaryTail rec x) (primaryTail rec' x) := by
  intro l y s hp
  cases hp
  refine ⟨[], rfl, List.nil_suffix, hx, fun l' => ⟨fun hne => absurd rfl hne, fun _ => ?_⟩⟩
  rw [Ending.operand, List.nil_append, primaryTail, peek_bind, h.block.head]
  change (if opensLiteral x l' then composite rec' (some x) >>= fun y => rec' (.primaryTail y)
    else pure x) ⟨tl, l'⟩ = _
  split
  · rw [bind_of_ok (composite_block h x l')]
    exact h.stops.primaryTail_rest _ l'
  · rfl

theorem primaryTail_extends (hy : Plain ys) (x : Expr) (hx : x.IsPrimary) :
    Extends tl (.operand tl rest) Expr.IsPrimary ys (primaryTail rec x) (primaryTail rec' x) := by
  cases ys with
  | nil => exact primaryTail_nil h x hx
  | cons t ts =>
    have ht : t.kind.isPlain = true := hy t List.mem_cons_self
    unfold primaryTail
    refine .peek ?_
    split
    · refine .skip ((selectorOrAssertion_extends h hy.tail x).bind_same fun y zs hzs hy' => ?_)
      exact h.primaryTail y zs hy' (hy.tail.suffix hzs)
    · refine (indexOrSlice_extends h hy x).bind_same fun y zs hzs hy' => ?_
      exact h.primaryTail y zs hy' (hy.suffix hzs)
    · refine (call_extends h hy x).bind_same fun y zs hzs hy' => ?_
      exact h.primaryTail y zs hy' (hy.suffix hzs)
    · rename_i hk
      rw [hk] at ht
      cases ht
    · exact .of_pure_cons hx

end Step

/-! ## The grammar -/

section Grammar

variable {tl rest : List Token} {rec rec' : Phrases}

theorem binaryTail_of_head {ts : List Token} (hts : ∀ op, headKind ts ≠ .symbol (.binary op))
    (rec : Phrases) (prec : Nat) (x : Expr) (l : Int) :
    binaryTail rec prec x ⟨ts, l⟩ = .ok (x, ⟨ts, l⟩) := by
  rw [binaryTail, peek_bind]
  dsimp only
  generalize headKind ts = k at hts
  cases k with
  | symbol s =>
    cases s with
    | binary op => exact absurd rfl (hts op)
    | _ => rfl
  | _ => rfl

theorem EmptyBlock.primaryTail_eq (hb : EmptyBlock tl rest) (rec : Phrases) (x : Expr) (l : Int) :
    primaryTail rec x ⟨rest, l⟩ = .ok (x, ⟨rest, l⟩) := by
  rw [primaryTail, peek_bind]
  rcases hb.ends_kind with hk | hk | hk
  all_goals
    rw [hk]
    rfl

theorem elems_of_brace {ts : List Token} (hts : headKind ts = .symbol .rbrace) (rec : Phrases)
    (l : Int) : elems rec ⟨ts, l⟩ = .ok ([], ⟨ts, l⟩) := by
  unfold elems atListEnd
  rw [bind_assoc, peek_bind, hts]
  rfl

theorem Stops.step (hb : EmptyBlock tl rest) (rec : Phrases) :
    Stops tl rest (fun p => p.step rec) where
  binaryTail_block prec x l := by
    refine binaryTail_of_head (fun op hk => ?_) rec prec x l
    rw [hb.head] at hk
    cases hk
  binaryTail_rest prec x l := binaryTail_of_head (fun _ => hb.rest_ne nofun rfl) rec prec x l
  primaryTail_rest x l := hb.primaryTail_eq rec x l
  elems l := elems_of_brace hb.second rec l

/-- Readers that never succeed are simulated by all that stop where they should. -/
theorem Simulates.of_fail (hb : EmptyBlock tl rest) (hs : Stops tl rest rec') (f : SyntaxFault) :
    Simulates tl rest (fun _ => fail f) rec' where
  block := hb
  stops := hs
  binary _ _ _ := .fail f
  binaryTail _ _ _ _ _ := .fail f
  unary _ _ := .fail f
  primaryTail _ _ _ _ := .fail f
  args _ _ := .fail f
  type _ _ := .fail f
  typesTail _ _ := .fail f
  typeArgsTail _ _ := .fail f
  binaryTail_nil _ _ _ _ _ hp := by cases hp

/-- The grammar over readers that read the same reads the same. -/
theorem Simulates.step (h : Simulates tl rest rec rec') :
    Simulates tl rest (fun p => p.step rec) (fun p => p.step rec') where
  block := h.block
  stops := .step h.block rec'
  binary prec _ hy := binary_extends h hy prec
  binaryTail prec x _ _ hy := binaryTail_extends h hy prec x
  unary _ hy := unary_extends h hy
  primaryTail x _ hx hy := primaryTail_extends h hy x hx
  args _ hy := args_extends h hy
  type _ hy := (type_extends h hy).forget
  typesTail _ hy := typesTail_extends h hy
  typeArgsTail _ hy := typeArgsTail_extends h hy
  binaryTail_nil prec x l b s hp := by
    cases hp
    exact ⟨rfl, rfl⟩

/-- In front of a block the grammar, if it may nest deeper, reads the same. -/
theorem read_simulates (hb : EmptyBlock tl rest) {d d' : Nat} (hd : d < d') :
    Simulates tl rest (Phrase.read d) (Phrase.read d') := by
  -- each level of the grammar adds one to both depths, so the inner readers keep their order
  induction d generalizing d' with
  | zero =>
    obtain ⟨d', rfl⟩ := Nat.exists_eq_succ_of_ne_zero (Nat.ne_zero_of_lt hd)
    exact .of_fail hb (.step hb _) .tooDeep
  | succ d ih =>
    obtain ⟨d', rfl⟩ := Nat.exists_eq_succ_of_ne_zero (Nat.ne_zero_of_lt hd)
    exact (ih (Nat.lt_of_succ_lt_succ hd)).step

end Grammar

end GoRepl.Syntax
