import GoRepl.Fragment.Shape
import GoRepl.Proofs.Syntax.Extension

/-! # What a statement can be

Apart from declarations of values, the statements that start with a keyword, a brace or a semicolon
have no shape of their own.

* `GivesOther`: readers of such statements.
* `stmt_cases`: a statement is a simple one, a declaration of values, or one of these.
* `stmt_eq_expr`: a statement that is an expression ends where the expression does.
-/

namespace GoRepl.Syntax

open Read Grammar

/-- Whatever `p` reads has no shape of its own. -/
def GivesOther (p : Read Stmt) : Prop :=
  ∀ s a s', p s = .ok (a, s') → Shape.ofStmt a = .other

namespace GivesOther

variable {α : Type}

theorem of_pure {a : Stmt} (ha : Shape.ofStmt a = .other) : GivesOther (pure a) := by
  intro s a' s' he
  cases he
  exact ha

theorem fail (f : SyntaxFault) : GivesOther (Read.fail f) := fun _ _ _ he => nomatch he

theorem bind {p : Read α} {f : α → Read Stmt} (hf : ∀ a, GivesOther (f a)) :
    GivesOther (p >>= f) := by
  intro s b s' he
  obtain ⟨a, s₁, -, hb⟩ := bind_eq_ok.mp he
  exact hf a s₁ b s' hb

end GivesOther

variable {rec : Phrases}

theorem conditional_other : GivesOther (conditional rec) := by
  unfold conditional
  refine .bind fun _ => .bind fun b => ?_
  extract_lets rest
  have hrest : ∀ u, GivesOther (rest u) := fun _ =>
    .bind fun head => .bind fun cond => .bind fun body => .bind fun orElse => .of_pure rfl
  split
  · exact .bind hrest
  · exact hrest ()

theorem loop_other : GivesOther (loop rec) := by
  unfold loop
  refine .bind fun _ => .bind fun head => .bind fun body => ?_
  split
  all_goals first | exact .of_pure rfl | exact .fail _

theorem branch_other (kw : BranchKeyword) : GivesOther (branch kw) := by
  unfold branch
  refine .bind fun _ => .bind fun k => ?_
  split
  · exact .of_pure rfl
  · exact .bind fun _ => .of_pure rfl
  · exact .of_pure rfl

theorem labeled_other (l : String) : GivesOther (labeled rec l) := by
  unfold labeled
  refine .bind fun _ => .bind fun k => ?_
  split
  · exact .of_pure rfl
  · exact .of_pure rfl
  · exact .bind fun s => .of_pure rfl

theorem ended_eq_ok {α : Type} {p : Read α} {s s' : ReadState} {a : α} :
    ended p s = .ok (a, s') ↔ ∃ s₁, p s = .ok (a, s₁) ∧ statementEnd s₁ = .ok ((), s') := by
  unfold ended
  constructor
  · intro h
    obtain ⟨b, s₁, hp, hrest⟩ := bind_eq_ok.mp h
    obtain ⟨⟨⟩, s₂, hend, hpure⟩ := bind_eq_ok.mp hrest
    cases hpure
    exact ⟨s₁, hp, hend⟩
  · rintro ⟨s₁, hp, hend⟩
    rw [bind_of_ok hp, bind_of_ok hend]
    rfl

theorem ended_other {p : Read Stmt} (hp : GivesOther p) : GivesOther (ended p) := by
  intro s a s' he
  obtain ⟨s₁, ha, -⟩ := ended_eq_ok.mp he
  exact hp s a s₁ ha

/-- The keyword that starts the declaration. -/
def ValueKeyword.word : ValueKeyword → Keyword
  | var => .varKw
  | const => .constKw

/-- What a statement can be, by its first token. -/
theorem stmt_cases {s s' : ReadState} {a : Stmt} (h : stmt rec s = .ok (a, s')) :
    (startsSimple (headKind s.tokens) = true ∧ simpleOrLabeled rec s = .ok (a, s')) ∨
    (∃ kw : ValueKeyword, headKind s.tokens = .keyword kw.word ∧
      ended (valueDecl rec kw) s = .ok (a, s')) ∨
    startsSimple (headKind s.tokens) = false ∧
      (∀ kw : ValueKeyword, headKind s.tokens ≠ .keyword kw.word) ∧ Shape.ofStmt a = .other := by
  unfold stmt at h
  rw [peek_bind] at h
  generalize headKind s.tokens = k at h ⊢
  split at h
  · exact .inl ⟨‹_›, h⟩
  rename_i hsimple
  have hother : ∀ {p : Read Stmt}, GivesOther p → p s = .ok (a, s') → Shape.ofStmt a = .other :=
    fun hp he => hp s a s' he
  by_cases hvalue : ∃ kw : ValueKeyword, k = .keyword kw.word
  · obtain ⟨kw, rfl⟩ := hvalue
    refine .inr (.inl ⟨kw, rfl, ?_⟩)
    cases kw <;> exact h
  refine .inr (.inr ⟨eq_false_of_ne_true hsimple, not_exists.mp hvalue, ?_⟩)
  split at h
  · exact absurd ⟨.var, rfl⟩ hvalue
  · exact absurd ⟨.const, rfl⟩ hvalue
  · exact hother (ended_other (.bind fun _ => .bind fun ss => .of_pure rfl)) h
  · exact hother (ended_other (.bind fun x => .of_pure rfl)) h
  · exact hother (ended_other (.bind fun x => .of_pure rfl)) h
  · exact hother (ended_other (.bind fun xs => .of_pure rfl)) h
  · exact hother (ended_other (branch_other _)) h
  · exact hother (ended_other (branch_other _)) h
  · exact hother (ended_other (branch_other _)) h
  · exact hother (ended_other (branch_other _)) h
  · exact hother (ended_other (.bind fun b => .of_pure rfl)) h
  · exact hother (ended_other conditional_other) h
  · refine hother (ended_other (.bind fun _ => .bind fun head => .bind fun _ => ?_)) h
    exact .bind fun cs => .bind fun _ => .of_pure rfl
  · refine hother (ended_other (.bind fun _ => .bind fun _ => ?_)) h
    exact .bind fun cs => .bind fun _ => .of_pure rfl
  · exact hother (ended_other loop_other) h
  · exact hother (.bind fun _ => .of_pure rfl) h
  · exact hother (.bind fun _ => .of_pure rfl) h
  · exact hother (.of_pure rfl) h
  · exact hother (.of_pure rfl) h
  · cases h

/-! ## Expressions as statements -/

theorem exprs_eq_singleton {k : Nat} {x : Expr} {s s' : ReadState}
    (h : exprs (Phrase.read (k + 1)) s = .ok ([x], s')) :
    expr (Phrase.read (k + 1)) s = .ok (x, s') := by
  obtain ⟨y, s₁, hy, hrest⟩ := bind_eq_ok.mp h
  obtain ⟨ys, s₂, hys, hpure⟩ := bind_eq_ok.mp hrest
  cases hpure
  change exprsTail (Phrase.read k) s₁ = _ at hys
  rw [exprsTail, atSymbol_bind] at hys
  split at hys
  · -- behind a comma there is at least one more
    obtain ⟨⟨⟩, s₃, -, hmore⟩ := bind_eq_ok.mp hys
    obtain ⟨z, s₄, -, hzs⟩ := bind_eq_ok.mp hmore
    obtain ⟨zs, s₅, -, hcons⟩ := bind_eq_ok.mp hzs
    cases hcons
  · cases hys
    exact hy

theorem simpleTail_eq_expr {left : List Expr} {x : Expr} {s s' : ReadState}
    (h : simpleTail rec left s = .ok (.expr x, s')) : left = [x] ∧ s' = s := by
  unfold simpleTail at h
  rw [peek_bind] at h
  generalize headKind s.tokens = k at h
  cases hop : assignOp? k with
  | some op =>
    simp only [hop] at h
    obtain ⟨⟨⟩, s₁, -, hright⟩ := bind_eq_ok.mp h
    obtain ⟨right, s₂, -, hset⟩ := bind_eq_ok.mp hright
    cases op with
    | compound op =>
      dsimp only at hset
      split at hset
      · cases hset
      · cases hset
    | _ => cases hset
  | none =>
    simp only [hop] at h
    split at h
    · split at h
      · obtain ⟨⟨⟩, s₁, -, hsend⟩ := bind_eq_ok.mp h
        obtain ⟨v, s₂, -, hpure⟩ := bind_eq_ok.mp hsend
        cases hpure
      · cases h
      · cases h
      · cases h
        exact ⟨rfl, rfl⟩
    · cases h

/-- A statement that is an expression ends where the expression does. -/
theorem stmt_eq_expr {k : Nat} {x : Expr} {s s' : ReadState}
    (h : Phrase.read (k + 2) .stmt s = .ok (.simple (.expr x), s')) :
    ∃ s₁, Phrase.read (k + 2) (.binary 1) s = .ok (x, s₁) ∧
      statementEnd s₁ = .ok ((), s') := by
  have hstmt : stmt (Phrase.read (k + 1)) s = .ok (.simple (.expr x), s') := h
  rcases stmt_cases hstmt with ⟨-, hsimple⟩ | ⟨kw, -, hdecl⟩ | ⟨-, -, hother⟩
  · obtain ⟨left, s₁, hleft, hrest⟩ := bind_eq_ok.mp hsimple
    rw [peek_bind] at hrest
    generalize headKind s₁.tokens = k' at hrest
    split at hrest
    · have hlabel := labeled_other _ _ _ _ hrest
      cases hlabel
    · obtain ⟨y, s₂, hy, hended⟩ := bind_eq_ok.mp hrest
      obtain ⟨⟨⟩, s₃, hend, hpure⟩ := bind_eq_ok.mp hended
      cases hpure
      obtain ⟨rfl, rfl⟩ := simpleTail_eq_expr hy
      exact ⟨s₂, exprs_eq_singleton hleft, hend⟩
  · obtain ⟨s₁, hvalue, -⟩ := ended_eq_ok.mp hdecl
    obtain ⟨⟨⟩, s₂, -, hrest⟩ := bind_eq_ok.mp hvalue
    obtain ⟨specs, s₃, -, hpure⟩ := bind_eq_ok.mp hrest
    cases hpure
  · cases hother

end GoRepl.Syntax
