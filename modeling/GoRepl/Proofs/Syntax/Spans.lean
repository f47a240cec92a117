import GoRepl.Proofs.Syntax.Extension

/-! # What a reader takes and gives

* `Spans`: a relation between the kinds that a reader takes and the value that it gives.
* `Spans.bind`, `Spans.skip_of` and the lemmas around them: one for each way to compose readers.
-/

namespace GoRepl.Syntax

open Read

/-- Whatever `p` takes from `ts` and gives is related by `R`. -/
def Spans {α : Type} (R : List Kind → α → Prop) (ts : List Token) (p : Read α) : Prop :=
  ∀ l a s, p ⟨ts, l⟩ = .ok (a, s) → ∃ taken, ts = taken ++ s.tokens ∧ R (taken.map (·.kind)) a

namespace Spans

variable {α β : Type} {R : List Kind → α → Prop} {Q : List Kind → β → Prop} {ts : List Token}
  {sym : Symbol}

theorem of_pure {a : α} (h : R [] a) : Spans R ts (pure a) := by
  intro l a' s hp
  cases hp
  exact ⟨[], rfl, h⟩

theorem fail (f : SyntaxFault) : Spans R ts (Read.fail f) := by
  intro l a s h
  cases h

theorem unexpected (w : Wanted) : Spans R ts (Read.unexpected w) := fail _

theorem fail_bind (f : SyntaxFault) (q : β → Read α) : Spans R ts (Read.fail f >>= q) := by
  intro l a s h
  cases h

theorem unexpected_bind (w : Wanted) (q : β → Read α) : Spans R ts (Read.unexpected w >>= q) :=
  fail_bind _ q

theorem mono {R' : List Kind → α → Prop} {p : Read α} (hp : Spans R ts p)
    (h : ∀ ks a, R ks a → R' ks a) : Spans R' ts p := by
  intro l a s hpa
  obtain ⟨taken, hts, hR⟩ := hp l a s hpa
  exact ⟨taken, hts, h _ a hR⟩

theorem bind {p : Read β} {f : β → Read α} (hp : Spans Q ts p)
    (hf : ∀ b ks zs, Q ks b → Spans (fun ks' a => R (ks ++ ks') a) zs (f b)) :
    Spans R ts (p >>= f) := by
  intro l a s h
  obtain ⟨b, s', hpb, hfa⟩ := bind_eq_ok.mp h
  obtain ⟨taken, rfl, hQ⟩ := hp l b s' hpb
  obtain ⟨taken', hs, hR⟩ := hf b _ s'.tokens hQ s'.level a s hfa
  refine ⟨taken ++ taken', by rw [hs, List.append_assoc], ?_⟩
  rwa [List.map_append]

theorem pure_bind {b : β} {f : β → Read α} (h : Spans R ts (f b)) :
    Spans R ts (pure b >>= f) := h

/-! ## Looking at tokens -/

theorem peek {f : Kind → Read α} (h : ∀ k, headKind ts = k → Spans R ts (f k)) :
    Spans R ts (peek >>= f) := h _ rfl

theorem peekSecond {f : Kind → Read α} (h : ∀ k, headKind ts.tail = k → Spans R ts (f k)) :
    Spans R ts (peekSecond >>= f) := h _ rfl

theorem level {f : Int → Read α} (h : ∀ l, Spans R ts (f l)) : Spans R ts (level >>= f) :=
  fun l => h l l

theorem atSymbol {f : Bool → Read α} (htrue : headKind ts = .symbol sym → Spans R ts (f true))
    (hfalse : Spans R ts (f false)) : Spans R ts (atSymbol sym >>= f) := by
  intro l a s h
  rw [atSymbol_bind] at h
  cases hb : headKind ts == .symbol sym with
  | true => exact htrue (eq_of_beq hb) l a s (hb ▸ h)
  | false => exact hfalse l a s (hb ▸ h)

theorem atSemicolon {f : Bool → Read α}
    (htrue : (headKind ts).isSemicolon = true → Spans R ts (f true))
    (hfalse : Spans R ts (f false)) : Spans R ts (atSemicolon >>= f) := by
  intro l a s h
  rw [atSemicolon_bind] at h
  cases hb : (headKind ts).isSemicolon with
  | true => exact htrue hb l a s (hb ▸ h)
  | false => exact hfalse l a s (hb ▸ h)

theorem atListEnd {f : Bool → Read α} (h : ∀ b, Spans R ts (f b)) :
    Spans R ts (atListEnd sym >>= f) := fun l a s hs => h _ l a s hs

/-! ## Taking tokens -/

/-- A token is taken in front of others.  At the end of the tokens nothing is taken. -/
theorem skip_of {f : Unit → Read α}
    (hend : headKind ts = .eof → ∀ ks a, R (.eof :: ks) a → R ks a)
    (h : Spans (fun ks a => R (headKind ts :: ks) a) ts.tail (f ())) :
    Spans R ts (skip >>= f) := by
  intro l a s hs
  obtain ⟨taken, htail, hR⟩ := h l a s hs
  cases ts with
  | nil => exact ⟨taken, htail, hend rfl _ a hR⟩
  | cons t ts =>
    refine ⟨t :: taken, ?_, hR⟩
    rw [List.cons_append, ← htail]
    rfl

theorem expect_of {f : Unit → Read α}
    (h : headKind ts = .symbol sym → Spans R ts (skip >>= f)) : Spans R ts (expect sym >>= f) := by
  unfold Read.expect
  rw [bind_assoc]
  exact atSymbol h (fail _)

theorem expectKeyword_of {w : Keyword} {f : Unit → Read α}
    (h : headKind ts = .keyword w → Spans R ts (skip >>= f)) :
    Spans R ts (expectKeyword w >>= f) := by
  unfold Read.expectKeyword
  rw [bind_assoc]
  refine peek fun k hk => ?_
  split
  · rename_i hw
    exact h (hk.trans (eq_of_beq hw))
  · exact fail _

theorem expectName_of {f : String → Read α}
    (h : ∀ n, headKind ts = .name n → Spans R ts (skip >>= fun _ => f n)) :
    Spans R ts (expectName >>= f) := by
  unfold Read.expectName
  rw [bind_assoc]
  refine peek fun k hk => ?_
  split
  · rw [bind_assoc]
    exact h _ hk
  · exact fail _

/-! ## Nesting levels -/

theorem nested {p : Read α} (h : Spans R ts p) : Spans R ts (nested p) := by
  intro l a s hnested
  obtain ⟨s₁, hp, rfl⟩ := nested_eq_ok.mp hnested
  exact h _ a s₁ hp

theorem header {p : Read α} (h : Spans R ts p) : Spans R ts (header p) := by
  intro l a s hheader
  obtain ⟨s₁, hp, rfl⟩ := header_eq_ok.mp hheader
  exact h _ a s₁ hp

end Spans

end GoRepl.Syntax
