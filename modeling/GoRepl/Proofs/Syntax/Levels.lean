import GoRepl.Proofs.Syntax.Composed

/-! # Readers keep the level

Every reader of the grammar leaves the nesting level as it found it, however headers, brackets,
literals and functions are nested in what it reads.  A fault may leave any level, because nothing
is read behind it.

* `KeepsLevel`, `Composed.keepsLevel`: readers that keep the level.
* `read_keepsLevel`: the readers of all phrases, to any depth.
* `IsPart`, `IsPart.keepsLevel`: the parts of the grammar.
-/

namespace GoRepl.Syntax

open Read Grammar

variable {rec : Phrases} {l : Int} {α β : Type}

/-- What `p` reads leaves the level as it was. -/
def KeepsLevel (p : Read α) : Prop := ∀ s a s', p s = .ok (a, s') → s'.level = s.level

theorem KeepsLevel.of_ok {p : Read α} (h : ∀ s, ∃ a s', p s = .ok (a, s') ∧ s'.level = s.level) :
    KeepsLevel p := by
  intro s a s' hs
  obtain ⟨a', s₁, hok, hlevel⟩ := h s
  rw [hs] at hok
  cases hok
  exact hlevel

/-- What is composed of readers that keep the level does so. -/
theorem Composed.keepsLevel {p : Read α} (hp : Composed rec p l)
    (h : ∀ {β : Type} (ph : Phrase β), KeepsLevel (rec ph)) : KeepsLevel p := by
  induction hp with
  | of_pure a => exact .of_ok fun s => ⟨a, s, rfl, rfl⟩
  | fail f => exact nofun
  | peek | peekSecond | level | skip => exact .of_ok fun s => ⟨_, _, rfl, rfl⟩
  | bind hp hf ihp ihf =>
    intro s b s' hs
    obtain ⟨a, s₁, ha, hb⟩ := bind_eq_ok.mp hs
    exact (ihf a _ _ _ hb).trans (ihp _ _ _ ha)
  | nested hp ih =>
    intro s a s' hs
    obtain ⟨s₁, ha, rfl⟩ := nested_eq_ok.mp hs
    have hlevel : s₁.level = s.level + 1 := ih _ _ _ ha
    exact Int.sub_eq_iff_eq_add.mpr hlevel
  | header hp ih =>
    intro s a s' hs
    obtain ⟨s₁, -, rfl⟩ := header_eq_ok.mp hs
    rfl
  | phrase ph => exact h ph
  | lift hp ih => exact ih

/-- However deep the phrases nest, their readers keep the level. -/
theorem read_keepsLevel (depth : Nat) (ph : Phrase α) : KeepsLevel (Phrase.read depth ph) := by
  induction depth generalizing α with
  | zero => exact nofun
  | succ depth ih => exact (step_composed ph).keepsLevel ih

/-! ## The parts of the grammar -/

/-- The readers of the parts of the grammar, over the readers `rec` of phrases. -/
inductive IsPart (rec : Phrases) : {α : Type} → Read α → Prop
  | phrase {α : Type} (ph : Phrase α) : IsPart @rec (ph.step rec)
  | expr : IsPart @rec (expr rec)
  | exprs : IsPart @rec (exprs rec)
  | primary : IsPart @rec (primary rec)
  | operand : IsPart @rec (operand rec)
  /-- A function type, or with a body a function literal. -/
  | funcOperand : IsPart @rec (funcOperand rec)
  | selectorOrAssertion (x : Expr) : IsPart @rec (selectorOrAssertion rec x)
  | indexOrSlice (x : Expr) : IsPart @rec (indexOrSlice rec x)
  | call (fn : Expr) : IsPart @rec (call rec fn)
  | composite (type? : Option Expr) : IsPart @rec (composite rec type?)
  | elem : IsPart @rec (elem rec)
  | paramList : IsPart @rec (paramList rec)
  | signature : IsPart @rec (signature rec)
  | structType : IsPart @rec (structType rec)
  | interfaceType : IsPart @rec (interfaceType rec)
  | field : IsPart @rec (field rec)
  | interfaceItem : IsPart @rec (interfaceItem rec)
  | unionTerm : IsPart @rec (unionTerm rec)
  /-- The length and the elements of an array, or the elements of a slice. -/
  | arrayTail : IsPart @rec (arrayTail rec)
  | simple : IsPart @rec (simple rec)
  | simpleOrLabeled : IsPart @rec (simpleOrLabeled rec)
  | block : IsPart @rec (block rec)
  | conditional : IsPart @rec (conditional rec)
  | switch : IsPart @rec (switch rec)
  | caseClause : IsPart @rec (caseClause rec)
  | select : IsPart @rec (select rec)
  | commClause : IsPart @rec (commClause rec)
  | loopHeader : IsPart @rec (loopHeader rec)
  | loop : IsPart @rec (loop rec)
  | valueSpec (kw : ValueKeyword) (first : Bool) : IsPart @rec (valueSpec rec kw first)
  | typeSpec : IsPart @rec (typeSpec rec)
  | valueDecl (kw : ValueKeyword) : IsPart @rec (valueDecl rec kw)
  | typeDecl : IsPart @rec (typeDecl rec)
  | importSpec : IsPart @rec ImportSpec.read

theorem IsPart.composed {p : Read α} (h : IsPart rec p) : ∃ l, Composed rec p l := by
  cases h with
  | phrase ph => exact ⟨_, step_composed ph⟩
  | expr => exact ⟨_, expr_composed⟩
  | exprs => exact ⟨_, exprs_composed⟩
  | primary => exact ⟨_, primary_composed⟩
  | operand => exact ⟨_, operand_composed⟩
  | funcOperand => exact ⟨_, funcOperand_composed⟩
  | selectorOrAssertion x => exact ⟨_, selectorOrAssertion_composed x⟩
  | indexOrSlice x => exact ⟨_, indexOrSlice_composed x⟩
  | call fn => exact ⟨_, call_composed fn⟩
  | composite type? => exact ⟨_, composite_composed type?⟩
  | elem => exact ⟨_, elem_composed⟩
  | paramList => exact ⟨_, paramList_composed⟩
  | signature => exact ⟨_, signature_composed⟩
  | structType => exact ⟨_, structType_composed⟩
  | interfaceType => exact ⟨_, interfaceType_composed⟩
  | field => exact ⟨_, field_composed⟩
  | interfaceItem => exact ⟨_, interfaceItem_composed⟩
  | unionTerm => exact ⟨_, unionTerm_composed⟩
  | arrayTail => exact ⟨_, arrayTail_composed⟩
  | simple => exact ⟨_, simple_composed⟩
  | simpleOrLabeled => exact ⟨_, simpleOrLabeled_composed⟩
  | block => exact ⟨_, block_composed⟩
  | conditional => exact ⟨_, conditional_composed⟩
  | switch => exact ⟨_, switch_composed⟩
  | caseClause => exact ⟨_, caseClause_composed⟩
  | select => exact ⟨_, select_composed⟩
  | commClause => exact ⟨_, commClause_composed⟩
  | loopHeader => exact ⟨_, loopHeader_composed⟩
  | loop => exact ⟨_, loop_composed⟩
  | valueSpec kw first => exact ⟨_, valueSpec_composed kw first⟩
  | typeSpec => exact ⟨_, typeSpec_composed⟩
  | valueDecl kw => exact ⟨_, valueDecl_composed kw⟩
  | typeDecl => exact ⟨_, typeDecl_composed⟩
  | importSpec => exact ⟨0, ImportSpec.read_composed⟩

/-- However deep the phrases nest, the parts of the grammar keep the level. -/
theorem IsPart.keepsLevel {depth : Nat} {p : Read α} (h : IsPart (Phrase.read depth) p) :
    KeepsLevel p := by
  obtain ⟨l, hp⟩ := h.composed
  exact hp.keepsLevel (read_keepsLevel depth)

end GoRepl.Syntax
