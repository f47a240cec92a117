import GoRepl.Proofs.Syntax.Extension

/-! # Types in front of a block

Expressions without braces and functions are read in front of a block, where the `{` of the block
may be taken for the body of a literal.  Types are read the same as without the block.

* `Plain`: tokens that such expressions and types are made of.
* `Expr.lastOperand`, `Expr.withBody`: the operand that decides, and the expression that is read if
  the `{` is taken.
* `EmptyBlock`, `Stops`: the block, and readers that stop there.
* `Simulates`: the readers of all phrases in such expressions, with and without a block behind.
* `type_extends`: types.
-/

namespace GoRepl

/-- Neither a brace nor `func` nor the end of the source. -/
def Kind.isPlain : Kind → Bool
  | .symbol .lbrace | .symbol .rbrace | .keyword .funcKw | .eof => false
  | _ => true

namespace Syntax

open Read Grammar

/-- Tokens without braces and functions. -/
def Plain (ys : List Token) : Prop := ∀ t ∈ ys, t.kind.isPlain = true

theorem Plain.suffix {ys zs : List Token} (h : Plain ys) (hzs : zs <:+ ys) : Plain zs :=
  fun t ht => h t (hzs.subset ht)

theorem Plain.tail {t : Token} {ts : List Token} (h : Plain (t :: ts)) : Plain ts :=
  h.suffix (List.suffix_cons t ts)

theorem Plain.ne_eof {ys : List Token} (h : Plain ys) : ∀ t ∈ ys, t.kind ≠ .eof := by
  intro t ht hk
  have hp := h t ht
  rw [hk] at hp
  cases hp

theorem Plain.headKind_ne {ys : List Token} (h : Plain ys) : headKind ys ≠ .symbol .lbrace := by
  intro hk
  cases ys with
  | nil => cases hk
  | cons t ts =>
    have ht : t.kind.isPlain = true := h t List.mem_cons_self
    rw [show t.kind = .symbol .lbrace from hk] at ht
    cases ht

/-- Plain tokens are not read where a brace must stand. -/
theorem Plain.expect_brace {α : Type} {tl ys : List Token} {fin : Ending α} {post : α → Prop}
    {f : Unit → Read α} {q : Read α} (h : Plain ys) :
    Extends tl fin post ys (expect .lbrace >>= f) q := by
  refine .of_error fun l => ⟨⟨.unexpected (.token (.symbol .lbrace)), ys⟩, ?_⟩
  have hb : (headKind ys == .symbol .lbrace) = false := by simpa using h.headKind_ne
  change ((if headKind ys == .symbol .lbrace then skip else
    unexpected (.token (.symbol .lbrace))) >>= f) ⟨ys, l⟩ = _
  rw [hb]
  rfl

/-! ## The last operand -/

namespace Expr

/-- The operand that an expression ends with. -/
def lastOperand : Expr → Expr
  | unary _ x | star x => x.lastOperand
  | binary _ _ right => right.lastOperand
  | x => x

/-- The expression with `{}` behind its last operand. -/
def withBody : Expr → Expr
  | unary op x => unary op x.withBody
  | star x => star x.withBody
  | binary left op right => binary left op right.withBody
  | x => composite (some x) []

/-- No operator stands outside of all brackets. -/
def IsPrimary : Expr → Prop
  | unary .. | star _ | binary .. => False
  | _ => True

theorem IsPrimary.lastOperand_eq {x : Expr} (h : x.IsPrimary) : x.lastOperand = x := by
  cases x <;> first | rfl | cases h

theorem IsPrimary.withBody_eq {x : Expr} (h : x.IsPrimary) :
    x.withBody = .composite (some x) [] := by
  cases x <;> first | rfl | cases h

end Expr

/-- In front of the block an operand is read, perhaps with the braces of the block. -/
def Ending.operand (tl rest : List Token) : Ending Expr := fun l x r =>
  r = if opensLiteral x l then .ok (.composite (some x) [], ⟨rest, l⟩) else .ok (x, ⟨tl, l⟩)

/-- In front of the block an expression is read, perhaps with the braces of the block. -/
def Ending.expression (tl rest : List Token) : Ending Expr := fun l x r =>
  r = if opensLiteral x.lastOperand l then .ok (x.withBody, ⟨rest, l⟩) else .ok (x, ⟨tl, l⟩)

theorem Extends.expression {tl rest ys : List Token} {p q : Read Expr}
    (h : Extends tl (.operand tl rest) Expr.IsPrimary ys p q) :
    Extends tl (.expression tl rest) (fun _ => True) ys p q := by
  refine h.mono ?_ fun _ _ => trivial
  intro l x r hx hr
  rw [Ending.expression, hx.lastOperand_eq, hx.withBody_eq]
  exact hr

theorem isSemicolon_iff {k : Kind} :
    k.isSemicolon = true ↔ k = .newline ∨ k = .symbol .semicolon := by
  constructor
  · intro hk
    cases k with
    | newline => exact .inl rfl
    | symbol s => cases s <;> first | exact .inr rfl | cases hk
    | _ => cases hk
  · rintro (rfl | rfl) <;> rfl

/-- `tl` is an empty block and what follows it, `rest`, which starts with the end of a statement. -/
structure EmptyBlock (tl rest : List Token) : Prop where
  head : headKind tl = .symbol .lbrace
  second : headKind tl.tail = .symbol .rbrace
  rest_eq : tl.tail.tail = rest
  ends : rest = [] ∨ (headKind rest).isSemicolon = true

namespace EmptyBlock

variable {tl rest : List Token}

theorem ends_kind (h : EmptyBlock tl rest) :
    headKind rest = .eof ∨ headKind rest = .newline ∨ headKind rest = .symbol .semicolon := by
  rcases h.ends with hr | hr
  · exact .inl (congrArg headKind hr)
  · exact .inr (isSemicolon_iff.mp hr)

theorem rest_ne (h : EmptyBlock tl rest) {k : Kind} (heof : k ≠ .eof)
    (hk : k.isSemicolon = false) : headKind rest ≠ k := by
  rintro rfl
  rcases h.ends with hr | hr
  · exact heof (congrArg headKind hr)
  · rw [hr] at hk
    cases hk

end EmptyBlock

/-- Nothing is read behind an expression at the block or behind it, and nothing in the block. -/
structure Stops (tl rest : List Token) (rec : Phrases) : Prop where
  binaryTail_block : ∀ prec x l, rec (.binaryTail prec x) ⟨tl, l⟩ = .ok (x, ⟨tl, l⟩)
  binaryTail_rest : ∀ prec x l, rec (.binaryTail prec x) ⟨rest, l⟩ = .ok (x, ⟨rest, l⟩)
  primaryTail_rest : ∀ x l, rec (.primaryTail x) ⟨rest, l⟩ = .ok (x, ⟨rest, l⟩)
  elems : ∀ l, rec .elems ⟨tl.tail, l⟩ = .ok ([], ⟨tl.tail, l⟩)

/-- The readers `rec'` read in front of a block what `rec` reads without it. -/
structure Simulates (tl rest : List Token) (rec rec' : Phrases) : Prop where
  block : EmptyBlock tl rest
  stops : Stops tl rest rec'
  binary : ∀ prec ys, Plain ys →
    Extends tl (.expression tl rest) (fun _ => True) ys (rec (.binary prec)) (rec' (.binary prec))
  binaryTail : ∀ prec x t ts, Plain (t :: ts) →
    Extends tl (.expression tl rest) (fun _ => True) (t :: ts) (rec (.binaryTail prec x))
      (rec' (.binaryTail prec x))
  unary : ∀ ys, Plain ys →
    Extends tl (.expression tl rest) (fun _ => True) ys (rec .unary) (rec' .unary)
  primaryTail : ∀ x ys, x.IsPrimary → Plain ys →
    Extends tl (.operand tl rest) Expr.IsPrimary ys (rec (.primaryTail x))
      (rec' (.primaryTail x))
  args : ∀ ys, Plain ys → Extends tl .any (fun _ => True) ys (rec .args) (rec' .args)
  type : ∀ ys, Plain ys → Extends tl (.same tl) (fun _ => True) ys (rec .type) (rec' .type)
  typesTail : ∀ ys, Plain ys →
    Extends tl (.same tl) (fun _ => True) ys (rec .typesTail) (rec' .typesTail)
  typeArgsTail : ∀ ys, Plain ys →
    Extends tl (.same tl) (fun _ => True) ys (rec .typeArgsTail) (rec' .typeArgsTail)
  /-- Without tokens nothing is read behind an expression. -/
  binaryTail_nil : ∀ prec x l b s, rec (.binaryTail prec x) ⟨[], l⟩ = .ok (b, s) →
    b = x ∧ s = ⟨[], l⟩

/-- What follows a name in a type, behind a possible selector. -/
def typeArguments (rec : Phrases) (base : Expr) : Read Expr := do
  let second ← peekSecond
  if (← atSymbol .lbrack) && second != .symbol .rbrack then do
    skip
    let as ← types rec
    expect .rbrack
    return .index base as
  else return base

theorem namedTail_eq (rec : Phrases) (n : String) :
    namedTail rec n = atSymbol .period >>= fun b =>
      if b = true then
        skip >>= fun _ => expectName >>= fun f => typeArguments rec (.selector (.name n) f)
      else typeArguments rec (.name n) := by
  unfold namedTail
  simp only [pure_bind]
  rfl

section Step

variable {tl rest ys : List Token} {rec rec' : Phrases} (h : Simulates tl rest rec rec')

include h

/-! ## Types -/

theorem types_extends (hy : Plain ys) :
    Extends tl (.same tl) (fun _ => True) ys (types rec) (types rec') := by
  unfold types
  refine (h.type ys hy).bind_same fun t zs hzs _ => ?_
  refine (h.typesTail zs (hy.suffix hzs)).bind_same fun ts zs' _ _ => ?_
  exact .of_pure trivial

theorem typesTail_extends (hy : Plain ys) :
    Extends tl (.same tl) (fun _ => True) ys (typesTail rec) (typesTail rec') := by
  unfold typesTail
  refine .ite_atSymbol h.block.head (by decide) ?_ (.of_pure trivial)
  rintro t ts rfl
  exact .skip (types_extends h hy.tail)

theorem typeArgsTail_extends (hy : Plain ys) :
    Extends tl (.same tl) (fun _ => True) ys (typeArgsTail rec) (typeArgsTail rec') := by
  unfold typeArgsTail
  refine .ite_atSymbol h.block.head (by decide) ?_ (.of_pure trivial)
  rintro t ts rfl
  refine .skip (.ite_atSymbol h.block.head (by decide) (fun _ _ _ => .of_pure trivial) ?_)
  refine (h.type ts hy.tail).bind_same fun a zs hzs _ => ?_
  refine (h.typeArgsTail zs (hy.tail.suffix hzs)).bind_same fun as _ _ _ => ?_
  exact .of_pure trivial

/-- A list of types with no bracket before it, but one behind. -/
theorem bracketed_extends (hy : Plain ys) (base : Expr) :
    Extends tl (.same tl) Expr.IsPrimary ys
      (types rec >>= fun as => expect .rbrack >>= fun _ => pure (Expr.index base as))
      (types rec' >>= fun as => expect .rbrack >>= fun _ => pure (Expr.index base as)) := by
  refine .bind_expect h.block.head (by decide) (types_extends h hy) fun as zs _ _ => ?_
  exact .of_pure trivial

theorem typeArguments_extends (hy : Plain ys) {base : Expr} (hbase : base.IsPrimary) :
    Extends tl (.same tl) Expr.IsPrimary ys (typeArguments rec base)
      (typeArguments rec' base) := by
  unfold typeArguments
  refine .peekSecond (.atSymbol h.block.head (by decide) ?_ (.of_pure hbase))
  rintro t ts rfl
  have hsecond : (headKind (t :: ts ++ tl).tail != .symbol .rbrack) =
      (headKind ts != .symbol .rbrack) := by
    cases ts with
    | nil =>
      change (headKind tl != _) = (headKind [] != _)
      rw [h.block.head]
      decide
    | cons u us => rfl
  rw [hsecond, List.tail_cons]
  simp only [Bool.true_and]
  split
  · exact .skip (bracketed_extends h hy.tail base)
  · exact .of_pure hbase

theorem namedTail_extends (hy : Plain ys) (n : String) :
    Extends tl (.same tl) Expr.IsPrimary ys (namedTail rec n) (namedTail rec' n) := by
  rw [namedTail_eq, namedTail_eq]
  refine .ite_atSymbol h.block.head (by decide) ?_ ?_
  · rintro t ts rfl
    refine .skip (.expectName ?_)
    rintro f u us rfl
    exact typeArguments_extends h hy.tail.tail trivial
  · exact typeArguments_extends h hy trivial

theorem arrayTail_extends (hy : Plain ys) :
    Extends tl (.same tl) Expr.IsPrimary ys (arrayTail rec) (arrayTail rec') := by
  have helem : ∀ (len : Option Expr) (zs : List Token), Plain zs →
      Extends tl (.same tl) Expr.IsPrimary zs
        (rec .type >>= fun t => pure (Expr.arrayType len t))
        (rec' .type >>= fun t => pure (Expr.arrayType len t)) := by
    intro len zs hz
    exact (h.type zs hz).bind_same fun t zs' _ _ => .of_pure trivial
  have hlen : ∀ zs, Plain zs → Extends tl (.same tl) Expr.IsPrimary zs
      (nested (rec (.binary 1)) >>= fun n => expect .rbrack >>= fun _ =>
        rec .type >>= fun t => pure (Expr.arrayType (some n) t))
      (nested (rec' (.binary 1)) >>= fun n => expect .rbrack >>= fun _ =>
        rec' .type >>= fun t => pure (Expr.arrayType (some n) t)) := by
    intro zs hz
    refine .bind_expect h.block.head (by decide) (h.binary 1 zs hz).nested fun n zs' hzs' _ => ?_
    exact helem _ _ (hz.suffix hzs')
  unfold arrayTail
  cases ys with
  | nil =>
    refine .peek_nil h.block.head ?_
    simp only [pure_bind]
    exact hlen [] hy
  | cons t ts =>
    refine .peek ?_
    simp only [pure_bind]
    split
    · refine .expect h.block.head (by decide) ?_
      rintro u us hu
      cases hu
      exact helem _ _ hy.tail
    · refine .skip (.expect h.block.head (by decide) ?_)
      rintro u us rfl
      exact helem _ _ hy.tail.tail
    · exact hlen _ hy

theorem type_extends (hy : Plain ys) :
    Extends tl (.same tl)
      (fun x => headKind ys ≠ .symbol (.binary (.arith .mul)) → x.IsPrimary) ys
      (type rec) (type rec') := by
  unfold type
  cases ys with
  | nil => exact .peek_nil h.block.head (.unexpected _)
  | cons t ts =>
    have ht : t.kind.isPlain = true := hy t List.mem_cons_self
    refine .peek ?_
    simp only [pure_bind, headKind]
    split
    · exact .skip ((namedTail_extends h hy.tail _).weaken fun _ hx _ => hx)
    · exact .skip ((arrayTail_extends h hy.tail).weaken fun _ hx _ => hx)
    · refine .expectKeyword ?_
      rintro u us hu
      cases hu
      exact hy.tail.expect_brace
    · refine .expectKeyword ?_
      rintro u us hu
      cases hu
      exact hy.tail.expect_brace
    · rename_i hk
      refine .skip ((h.type ts hy.tail).bind_same fun a zs _ _ => .of_pure fun hne => ?_)
      exact absurd hk hne
    · rename_i hk
      rw [hk] at ht
      cases ht
    · refine .skip (.expect h.block.head (by decide) ?_)
      rintro u us rfl
      refine .bind_expect h.block.head (by decide) (h.type us hy.tail.tail) fun k zs hzs _ => ?_
      exact (h.type zs (hy.tail.tail.suffix hzs)).bind_same fun v _ _ _ => .of_pure fun _ => trivial
    · have helem : ∀ (dir : ChanDir) (zs : List Token), Plain zs → Extends tl (.same tl)
          (fun x => t.kind ≠ .symbol (.binary (.arith .mul)) → x.IsPrimary) zs
          (rec .type >>= fun a => pure (Expr.chanType dir a))
          (rec' .type >>= fun a => pure (Expr.chanType dir a)) := fun dir zs hz =>
        (h.type zs hz).bind_same fun _ _ _ _ => .of_pure fun _ => trivial
      refine .skip (.ite_atSymbol h.block.head (by decide) ?_ (helem _ _ hy.tail))
      rintro u us rfl
      exact .skip (helem _ _ hy.tail.tail)
    · refine .skip (.expectKeyword ?_)
      rintro u us rfl
      exact (h.type us hy.tail.tail).bind_same fun a _ _ _ => .of_pure fun _ => trivial
    · refine .skip (.bind_expect h.block.head (by decide) (h.type ts hy.tail) fun a zs _ _ => ?_)
      exact .of_pure fun _ => trivial
    · exact .unexpected _

end Step

end Syntax

end GoRepl
