import GoRepl.Proofs.Syntax.NestedPhrases

/-! # The last token of an expression

An expression or a type takes at least one token, and behind the last one that it takes a line end
would end a statement.

* `Ends`: readers that take such tokens.
* `Ends.bind` and the lemmas behind it: one for each way to compose readers.
* `Phrases.Ends`: the readers of expressions and types do so.
* `read_ends`: so do those of any depth, by induction.
-/

namespace GoRepl.Syntax

open Read Grammar

/-- Behind the tokens a statement may end.  With `strict` there are some. -/
def EndsStatement (strict : Bool) (taken : List Token) : Prop :=
  match taken.getLast? with
  | none => strict = false
  | some t => t.kind.endsStatement = true

/-- A statement may end behind whatever `p` takes from `ts`; with `strict` it takes something. -/
def Ends {α : Type} (strict : Bool) (ts : List Token) (p : Read α) : Prop :=
  ∀ l a s, p ⟨ts, l⟩ = .ok (a, s) → ∃ taken, ts = taken ++ s.tokens ∧ EndsStatement strict taken

namespace EndsStatement

variable {strict : Bool} {t : Token} {as bs : List Token}

theorem singleton (h : t.kind.endsStatement = true) : EndsStatement strict [t] := h

theorem append (h : EndsStatement true bs) : EndsStatement strict (as ++ bs) := by
  unfold EndsStatement at h ⊢
  rw [List.getLast?_append]
  cases hb : bs.getLast? with
  | none =>
    rw [hb] at h
    cases h
  | some t =>
    rw [hb] at h
    exact h

theorem append_left (ha : EndsStatement strict as) (hb : EndsStatement false bs) :
    EndsStatement strict (as ++ bs) := by
  unfold EndsStatement at hb
  cases hl : bs.getLast? with
  | none => rwa [List.getLast?_eq_none_iff.mp hl, List.append_nil]
  | some t =>
    rw [hl] at hb
    refine append ?_
    unfold EndsStatement
    rw [hl]
    exact hb

theorem weaken (h : EndsStatement strict as) : EndsStatement false as := by
  unfold EndsStatement at h ⊢
  cases hl : as.getLast? with
  | none => rfl
  | some t =>
    rw [hl] at h
    exact h

end EndsStatement

namespace Ends

variable {α β : Type} {strict : Bool} {ts : List Token} {k : Kind} {sym : Symbol}

theorem of_pure (a : α) : Ends false ts (pure a) := by
  intro l a' s h
  cases h
  exact ⟨[], rfl, rfl⟩

theorem fail (f : SyntaxFault) : Ends strict ts (Read.fail f : Read α) := by
  intro l a s h
  cases h

theorem unexpected (w : Wanted) : Ends strict ts (Read.unexpected w : Read α) := fail _

theorem weaken {p : Read α} (h : Ends strict ts p) : Ends false ts p := by
  intro l a s hp
  obtain ⟨taken, hts, he⟩ := h l a s hp
  exact ⟨taken, hts, he.weaken⟩

theorem bind {p : Read α} {f : α → Read β} (hp : Ends strict ts p)
    (hf : ∀ a zs, Ends false zs (f a)) : Ends strict ts (p >>= f) := by
  intro l b s h
  obtain ⟨a, s₁, ha, hb⟩ := bind_eq_ok.mp h
  obtain ⟨taken, rfl, he⟩ := hp l a s₁ ha
  obtain ⟨taken', hs, he'⟩ := hf a s₁.tokens s₁.level b s hb
  exact ⟨taken ++ taken', by rw [hs, List.append_assoc], he.append_left he'⟩

/-- What is taken first does not matter in front of something else. -/
theorem behind {bs : List Bracket} {p : Read α} {f : α → Read β} (hp : Takes bs ts p)
    (hf : ∀ a zs, Ends true zs (f a)) : Ends strict ts (p >>= f) := by
  intro l b s h
  obtain ⟨a, s₁, ha, hb⟩ := bind_eq_ok.mp h
  obtain ⟨taken, rfl, -⟩ := hp l a s₁ ha
  obtain ⟨taken', hs, he⟩ := hf a s₁.tokens s₁.level b s hb
  exact ⟨taken ++ taken', by rw [hs, List.append_assoc], he.append⟩

/-! ## Looking at tokens -/

theorem peek {f : Kind → Read α} (h : ∀ k, headKind ts = k → Ends strict ts (f k)) :
    Ends strict ts (peek >>= f) := h _ rfl

theorem peekSecond {f : Kind → Read α} (h : ∀ k, Ends strict ts (f k)) :
    Ends strict ts (peekSecond >>= f) := fun l a s hs => h _ l a s hs

theorem level {f : Int → Read α} (h : ∀ l, Ends strict ts (f l)) :
    Ends strict ts (level >>= f) := fun l => h l l

theorem atSymbol {f : Bool → Read α} (h : ∀ b, Ends strict ts (f b)) :
    Ends strict ts (atSymbol sym >>= f) := fun l a s hs => h _ l a s hs

/-! ## Taking tokens -/

theorem skip {f : Unit → Read α} (h : ∀ zs, Ends true zs (f ())) :
    Ends strict ts (skip >>= f) := by
  intro l a s hs
  cases ts with
  | nil =>
    obtain ⟨taken, hts, he⟩ := h [] l a s hs
    refine ⟨taken, hts, ?_⟩
    rw [← List.nil_append taken]
    exact he.append
  | cons t ts =>
    obtain ⟨taken, hts, he⟩ := h ts l a s hs
    exact ⟨[t] ++ taken, congrArg (t :: ·) hts, he.append⟩

theorem skip_last {f : Unit → Read α} (hk : headKind ts = k) (he : k.endsStatement = true)
    (h : ∀ zs, Ends false zs (f ())) : Ends strict ts (Read.skip >>= f) := by
  intro l a s hs
  cases ts with
  | nil =>
    rw [← hk] at he
    cases he
  | cons t ts =>
    obtain ⟨taken, hts, he'⟩ := h ts l a s hs
    have ht : t.kind.endsStatement = true := by
      rw [show t.kind = k from hk]
      exact he
    exact ⟨t :: taken, congrArg (t :: ·) hts, (EndsStatement.singleton ht).append_left he'⟩

theorem expect {f : Unit → Read α} (h : ∀ zs, Ends true zs (f ())) :
    Ends strict ts (expect sym >>= f) := by
  simp only [Read.expect, bind_assoc]
  refine atSymbol fun b => ?_
  split
  · exact skip h
  · exact fun _ _ _ he => nomatch he

theorem expect_last {f : Unit → Read α} (he : (Kind.symbol sym).endsStatement = true)
    (h : ∀ zs, Ends false zs (f ())) : Ends strict ts (Read.expect sym >>= f) := by
  simp only [Read.expect, Read.atSymbol, bind_assoc, pure_bind]
  refine peek fun k hk => ?_
  split
  · rename_i hb
    exact skip_last hk (eq_of_beq hb ▸ he) h
  · exact fun _ _ _ he => nomatch he

theorem expectKeyword {w : Keyword} {f : Unit → Read α} (h : ∀ zs, Ends true zs (f ())) :
    Ends strict ts (expectKeyword w >>= f) := by
  simp only [Read.expectKeyword, bind_assoc]
  refine peek fun k _ => ?_
  split
  · exact skip h
  · exact fun _ _ _ he => nomatch he

theorem expectName {f : String → Read α} (h : ∀ n zs, Ends false zs (f n)) :
    Ends strict ts (expectName >>= f) := by
  simp only [Read.expectName, bind_assoc]
  refine peek fun k hk => ?_
  split
  · simp only [bind_assoc, pure_bind]
    exact skip_last hk rfl (h _)
  · exact fun _ _ _ he => nomatch he

theorem nested {p : Read α} (h : Ends strict ts p) : Ends strict ts (nested p) := by
  intro l a s hs
  obtain ⟨s₁, hp, rfl⟩ := nested_eq_ok.mp hs
  exact h (l + 1) a s₁ hp

end Ends

/-- A statement may end behind the expressions and types that these readers take. -/
structure Phrases.Ends (rec : Phrases) : Prop where
  binary : ∀ prec ts, Syntax.Ends true ts (rec (.binary prec))
  binaryTail : ∀ prec x ts, Syntax.Ends false ts (rec (.binaryTail prec x))
  unary : ∀ ts, Syntax.Ends true ts (rec .unary)
  primaryTail : ∀ x ts, Syntax.Ends false ts (rec (.primaryTail x))
  type : ∀ ts, Syntax.Ends true ts (rec .type)

section Step

variable {rec : Phrases} {ts : List Token} (hn : Phrases.Nest rec)

include hn

/-! ## Types -/

theorem typeArguments_ends (base : Expr) : Ends false ts (typeArguments rec base) := by
  unfold typeArguments
  refine .peekSecond fun second => .atSymbol fun b => ?_
  split
  · refine .skip fun _ => .behind (types_takes hn) fun us _ => ?_
    exact .expect_last rfl fun _ => .of_pure _
  · exact .of_pure _

theorem namedTail_ends (n : String) : Ends false ts (namedTail rec n) := by
  rw [namedTail_eq]
  refine .atSymbol fun b => ?_
  split
  · exact .skip fun _ => .expectName fun f _ => typeArguments_ends hn _
  · exact typeArguments_ends hn _

theorem structType_ends : Ends true ts (structType rec) := by
  unfold structType
  refine .expectKeyword fun _ => .expect fun _ => .behind (hn _ _) fun fs _ => ?_
  exact .expect_last rfl fun _ => .of_pure _

theorem interfaceType_ends : Ends true ts (interfaceType rec) := by
  unfold interfaceType
  refine .expectKeyword fun _ => .expect fun _ => .behind (hn _ _) fun is _ => ?_
  exact .expect_last rfl fun _ => .of_pure _

theorem paramList_ends : Ends true ts (paramList rec) := by
  unfold paramList
  exact .expect fun _ => .behind (hn _ _) fun fs _ => .expect_last rfl fun _ => .of_pure _

variable (h : Phrases.Ends rec)

include h

theorem arrayTail_ends : Ends true ts (arrayTail rec) := by
  unfold arrayTail
  have helem : ∀ len zs, Ends true zs (expect .rbrack >>= fun _ => rec .type >>= fun t =>
      pure (Expr.arrayType len t)) :=
    fun len zs => .expect fun _ => .bind (h.type _) fun t _ => .of_pure _
  refine .peek fun k _ => ?_
  split
  · exact helem none _
  · exact .skip fun _ => helem _ _
  · exact .behind (.nested (hn _ _)) fun n _ => helem _ _

theorem signature_ends : Ends true ts (signature rec) := by
  unfold signature
  refine .bind (paramList_ends hn) fun ps _ => .peek fun k _ => ?_
  split
  · exact .bind (paramList_ends hn).weaken fun rs _ => .of_pure _
  · split
    · exact .bind (h.type _).weaken fun t _ => .of_pure _
    · exact .of_pure _

theorem type_ends : Ends true ts (type rec) := by
  unfold type
  refine .peek fun k hk => ?_
  split
  · exact .skip_last hk rfl fun _ => namedTail_ends hn _
  · exact .skip fun _ => arrayTail_ends hn h
  · exact structType_ends hn
  · exact interfaceType_ends hn
  · exact .skip fun _ => .bind (h.type _) fun t _ => .of_pure _
  · exact .skip fun _ => .bind (signature_ends hn h) fun s _ => .of_pure _
  · refine .skip fun _ => .expect fun _ => .behind (hn _ _) fun k _ => .expect fun _ => ?_
    exact .bind (h.type _) fun v _ => .of_pure _
  · have helem : ∀ dir zs, Ends true zs (rec .type >>= fun t => pure (Expr.chanType dir t)) :=
      fun dir zs => .bind (h.type _) fun t _ => .of_pure _
    refine .skip fun _ => .atSymbol fun b => ?_
    split
    · exact .skip fun _ => helem _ _
    · exact helem _ _
  · exact .skip fun _ => .expectKeyword fun _ => .bind (h.type _) fun t _ => .of_pure _
  · refine .skip fun _ => .behind (hn _ _) fun t _ => .expect_last rfl fun _ => .of_pure _
  · exact .unexpected _

/-! ## Expressions -/

theorem funcOperand_ends : Ends true ts (funcOperand rec) := by
  unfold funcOperand
  refine .bind (signature_ends hn h) fun s _ => .atSymbol fun b => ?_
  split
  · refine .bind (.nested (.skip fun _ => .behind (hn _ _) fun b _ => ?_)) fun b _ => .of_pure _
    exact .expect_last rfl fun _ => .of_pure _
  · exact .of_pure _

theorem operand_ends : Ends true ts (operand rec) := by
  unfold operand
  refine .peek fun k hk => ?_
  split
  · exact .skip_last hk rfl fun _ => .of_pure _
  · exact .skip_last hk rfl fun _ => .of_pure _
  · refine .skip fun _ => .behind (.nested (hn _ _)) fun x _ => ?_
    exact .expect_last rfl fun _ => .of_pure _
  · exact .skip fun _ => funcOperand_ends hn h
  all_goals first | exact type_ends hn h | exact .unexpected _

theorem primary_ends : Ends true ts (primary rec) := by
  unfold primary
  exact .bind (operand_ends hn h) fun x _ => h.primaryTail x _

omit hn h in
theorem receive_ends (x : Expr) : Ends false ts (receive x) := by
  unfold receive
  split
  · exact .of_pure _
  · exact .fail _
  · exact .of_pure _

theorem unary_ends : Ends true ts (unary rec) := by
  unfold unary
  refine .peek fun k _ => ?_
  split
  · exact .skip fun _ => .bind (h.unary _) fun x _ => .of_pure _
  · split
    · exact .skip fun _ => .bind (h.unary _) fun x _ => receive_ends x
    · split
      · exact .skip fun _ => .bind (h.unary _) fun x _ => .of_pure _
      · exact primary_ends hn h

theorem binary_ends (prec : Nat) : Ends true ts (binary rec prec) := by
  unfold binary
  exact .bind (unary_ends hn h) fun x _ => h.binaryTail prec x _

omit hn in
theorem binaryTail_ends (prec : Nat) (left : Expr) : Ends false ts (binaryTail rec prec left) := by
  unfold binaryTail
  refine .peek fun k _ => ?_
  split
  · split
    · exact .of_pure _
    · refine .skip fun _ => .bind (h.binary _ _) fun right _ => h.binaryTail _ _ _
  · exact .of_pure _

omit h in
theorem selectorOrAssertion_ends (x : Expr) : Ends true ts (selectorOrAssertion rec x) := by
  unfold selectorOrAssertion
  refine .peek fun k hk => ?_
  split
  · exact .skip_last hk rfl fun _ => .of_pure _
  · refine .skip fun _ => .peek fun k _ => ?_
    split
    · exact .skip fun _ => .behind (.of_pure _) fun t _ => .expect_last rfl fun _ => .of_pure _
    · refine .behind (hn _ _) fun t _ => .behind (.of_pure _) fun t _ => ?_
      exact .expect_last rfl fun _ => .of_pure _
  · exact .unexpected _

omit h in
theorem call_ends (fn : Expr) : Ends true ts (call rec fn) := by
  unfold call
  refine .expect fun _ => .behind (.nested (hn _ _)) fun as _ => ?_
  exact .expect_last rfl fun _ => .of_pure _

omit h in
theorem composite_ends (t : Option Expr) : Ends true ts (composite rec t) := by
  unfold composite
  refine .expect fun _ => .behind (.nested (hn _ _)) fun es _ => ?_
  exact .expect_last rfl fun _ => .of_pure _

omit h in
theorem indexOrSlice_ends (x : Expr) : Ends true ts (indexOrSlice rec x) := by
  rw [indexOrSlice_eq]
  refine .expect fun _ => .behind (.nested ?_) fun made _ => .expect_last rfl fun _ => ?_
  · refine .atSymbol (fun _ => sliceOrIndex_takes hn x none) ?_
    exact .bind (expr_takes hn) fun i _ => sliceOrIndex_takes hn x (some i)
  · split
    · exact .fail _
    · exact .of_pure _

theorem primaryTail_ends (x : Expr) : Ends false ts (primaryTail rec x) := by
  unfold primaryTail
  refine .peek fun k _ => ?_
  split
  · refine .skip fun _ => .bind (selectorOrAssertion_ends hn x) fun y _ => h.primaryTail y _
  · exact .bind (indexOrSlice_ends hn x).weaken fun y _ => h.primaryTail y _
  · exact .bind (call_ends hn x).weaken fun y _ => h.primaryTail y _
  · refine .level fun l => ?_
    split
    · exact .bind (composite_ends hn _).weaken fun y _ => h.primaryTail y _
    · exact .of_pure _
  · exact .of_pure _

theorem step_ends : Phrases.Ends (Phrase.step rec) where
  binary prec _ := binary_ends hn h prec
  binaryTail prec x _ := binaryTail_ends h prec x
  unary _ := unary_ends hn h
  primaryTail x _ := primaryTail_ends hn h x
  type _ := type_ends hn h

end Step

/-- However deep they nest, a statement may end behind expressions and types. -/
theorem read_ends (depth : Nat) : Phrases.Ends (Phrase.read depth) := by
  induction depth with
  | zero => exact ⟨fun _ _ => .fail _, fun _ _ _ => .fail _, fun _ => .fail _, fun _ _ => .fail _,
      fun _ => .fail _⟩
  | succ depth ih => exact step_ends (read_nest depth) ih

end GoRepl.Syntax
