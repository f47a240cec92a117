import GoRepl.Syntax.Parser

/-! # Runs of readers

What the ways to compose readers give at a state, and what must have happened when they give it.

* `bind_eq_ok`, `nested_eq_ok`, `header_eq_ok`: a composed reader that reads a value.
* `bind_eq_error`, `nested_eq_error`, `header_eq_error`: one that stops with a fault.
* `bind_of_ok`, `peek_bind`, `expect_of_head` and the lemmas beside them: one step of a run.
-/

namespace GoRepl.Syntax

open Read

variable {α β : Type} {ys ts : List Token} {t : Token}

theorem bind_eq_ok {p : Read α} {k : α → Read β} {s s'' : ReadState} {b : β} :
    (p >>= k) s = .ok (b, s'') ↔ ∃ a s', p s = .ok (a, s') ∧ k a s' = .ok (b, s'') := by
  change (p s >>= fun x => k x.1 x.2) = _ ↔ _
  cases p s with
  | error e => simp [bind, Except.bind]
  | ok x =>
    obtain ⟨a, s'⟩ := x
    constructor
    · intro h
      exact ⟨a, s', rfl, h⟩
    · rintro ⟨a', s'', h, hk⟩
      cases h
      exact hk

theorem bind_of_ok {p : Read α} {s s' : ReadState} {a : α} (h : p s = .ok (a, s'))
    (k : α → Read β) : (p >>= k) s = k a s' := by
  change (p s >>= fun x => k x.1 x.2) = _
  rw [h]
  rfl

theorem bind_of_error {p : Read α} {s : ReadState} {e : ReadFault} (h : p s = .error e)
    (k : α → Read β) : (p >>= k) s = .error e := by
  change (p s >>= fun x => k x.1 x.2) = _
  rw [h]
  rfl

theorem bind_eq_error {p : Read α} {k : α → Read β} {s : ReadState} {e : ReadFault} :
    (p >>= k) s = .error e ↔
      p s = .error e ∨ ∃ a s', p s = .ok (a, s') ∧ k a s' = .error e := by
  constructor
  · intro h
    cases hs : p s with
    | error e' =>
      rw [bind_of_error hs] at h
      cases h
      exact .inl rfl
    | ok x =>
      obtain ⟨a, s'⟩ := x
      rw [bind_of_ok hs] at h
      exact .inr ⟨a, s', rfl, h⟩
  · rintro (h | ⟨a, s', ha, hk⟩)
    · exact bind_of_error h k
    · exact (bind_of_ok ha k).trans hk

theorem bind_congr_at {p q : Read α} {s s' : ReadState} (h : p s = q s') (k : α → Read β) :
    (p >>= k) s = (q >>= k) s' := by
  change (p s >>= fun x => k x.1 x.2) = _
  rw [h]
  rfl

theorem peek_bind (k : Kind → Read β) (s : ReadState) :
    (peek >>= k) s = k (headKind s.tokens) s := rfl

theorem atSymbol_bind (sym : Symbol) (k : Bool → Read β) (s : ReadState) :
    (atSymbol sym >>= k) s = k (headKind s.tokens == .symbol sym) s := rfl

theorem skip_bind (k : Unit → Read β) (l : Int) :
    (skip >>= k) ⟨t :: ts, l⟩ = k () ⟨ts, l⟩ := rfl

theorem expect_of_head {sym : Symbol} (h : headKind ys = .symbol sym) (l : Int) :
    expect sym ⟨ys, l⟩ = .ok ((), ⟨ys.tail, l⟩) := by
  unfold expect
  rw [atSymbol_bind, h, beq_self_eq_true]
  rfl

theorem expect_of_head_ne {sym : Symbol} (h : headKind ys ≠ .symbol sym) (l : Int) :
    expect sym ⟨ys, l⟩ = .error ⟨.unexpected (.token (.symbol sym)), ys⟩ := by
  unfold expect
  rw [atSymbol_bind, beq_eq_false_iff_ne.mpr h]
  rfl

theorem atSemicolon_bind (k : Bool → Read β) (s : ReadState) :
    (atSemicolon >>= k) s = k (headKind s.tokens).isSemicolon s := rfl

theorem expectKeyword_of_head {w : Keyword} (h : t.kind = .keyword w) (l : Int) :
    expectKeyword w ⟨t :: ts, l⟩ = .ok ((), ⟨ts, l⟩) := by
  unfold expectKeyword
  rw [peek_bind, show headKind (t :: ts) = .keyword w from h, beq_self_eq_true]
  rfl

theorem nested_of_ok {p : Read α} {zs : List Token} {l : Int} {a : α}
    (h : p ⟨ys, l + 1⟩ = .ok (a, ⟨zs, l + 1⟩)) : nested p ⟨ys, l⟩ = .ok (a, ⟨zs, l⟩) := by
  change (p >>= fun b => do
    setLevel ((← level) - 1)
    return b) ⟨ys, l + 1⟩ = _
  rw [bind_of_ok h]
  change Except.ok (a, ReadState.mk zs (l + 1 - 1)) = _
  rw [Int.add_sub_cancel]

theorem nested_eq_ok {p : Read α} {s s' : ReadState} {a : α} :
    nested p s = .ok (a, s') ↔ ∃ s₁, p { s with level := s.level + 1 } = .ok (a, s₁) ∧
      s' = { s₁ with level := s₁.level - 1 } := by
  change (p >>= fun b => do
    setLevel ((← level) - 1)
    return b) { s with level := s.level + 1 } = _ ↔ _
  rw [bind_eq_ok]
  constructor
  · rintro ⟨b, s₁, hp, hs⟩
    cases hs
    exact ⟨s₁, hp, rfl⟩
  · rintro ⟨s₁, hp, rfl⟩
    exact ⟨a, s₁, hp, rfl⟩

theorem nested_eq_error {p : Read α} {s : ReadState} {e : ReadFault} :
    nested p s = .error e ↔ p { s with level := s.level + 1 } = .error e := by
  change (p >>= fun b => do
    setLevel ((← level) - 1)
    return b) { s with level := s.level + 1 } = _ ↔ _
  refine ⟨fun h => ?_, fun h => bind_of_error h _⟩
  obtain hp | ⟨a, s₁, -, hdone⟩ := bind_eq_error.mp h
  · exact hp
  · cases hdone

theorem header_of_ok {p : Read α} {zs : List Token} {a : α}
    (h : p ⟨ys, -1⟩ = .ok (a, ⟨zs, -1⟩)) (l : Int) : header p ⟨ys, l⟩ = .ok (a, ⟨zs, l⟩) := by
  change (p >>= fun b => setLevel l >>= fun _ => pure b) ⟨ys, -1⟩ = _
  rw [bind_of_ok h]
  rfl

theorem header_eq_ok {p : Read α} {s s' : ReadState} {a : α} :
    header p s = .ok (a, s') ↔ ∃ s₁, p { s with level := -1 } = .ok (a, s₁) ∧
      s' = { s₁ with level := s.level } := by
  change (p >>= fun b => do
    setLevel s.level
    return b) { s with level := -1 } = _ ↔ _
  rw [bind_eq_ok]
  constructor
  · rintro ⟨b, s₁, hp, hs⟩
    cases hs
    exact ⟨s₁, hp, rfl⟩
  · rintro ⟨s₁, hp, rfl⟩
    exact ⟨a, s₁, hp, rfl⟩

theorem header_eq_error {p : Read α} {s : ReadState} {e : ReadFault} :
    header p s = .error e ↔ p { s with level := -1 } = .error e := by
  change (p >>= fun b => do
    setLevel s.level
    return b) { s with level := -1 } = _ ↔ _
  refine ⟨fun h => ?_, fun h => bind_of_error h _⟩
  obtain hp | ⟨a, s₁, -, hdone⟩ := bind_eq_error.mp h
  · exact hp
  · cases hdone

end GoRepl.Syntax
