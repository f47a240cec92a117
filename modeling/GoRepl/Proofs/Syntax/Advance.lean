import GoRepl.Proofs.Syntax.Composed

/-! # Readers go forward

What a reader leaves is an end of the tokens it starts at, and so is what it has reached when it
stops with a fault.  So a fault is found at one of the tokens, or behind all of them.

* `Advances`: readers that go forward.
* `Composed.advances`: what is composed of such readers.
* `read_advance`: the readers of all phrases, to any depth.
* `TokenStream.fragment_eq_error` and the two lemmas behind it: so the entry points.
-/

namespace GoRepl.Syntax

open Read Grammar

/-- What `p` leaves is an end of the tokens it starts at, and so is what it has reached at a
fault. -/
structure Advances {α : Type} (p : Read α) : Prop where
  leaves {s s' : ReadState} {a : α} : p s = .ok (a, s') → s'.tokens <:+ s.tokens
  stops {s : ReadState} {f : ReadFault} : p s = .error f → f.rest <:+ s.tokens

namespace Advances

variable {α β : Type}

theorem of_pure (a : α) : Advances (pure a) := by
  constructor
  · intro s s' a' h
    cases h
    exact List.suffix_refl _
  · intro s f h
    cases h

theorem fail (f : SyntaxFault) : Advances (Read.fail f : Read α) := by
  constructor
  · intro s s' a h
    cases h
  · intro s f h
    cases h
    exact List.suffix_refl _

theorem bind {p : Read α} {f : α → Read β} (hp : Advances p) (hf : ∀ a, Advances (f a)) :
    Advances (p >>= f) := by
  constructor
  · intro s s' b h
    obtain ⟨a, s₁, ha, hb⟩ := bind_eq_ok.mp h
    exact ((hf a).leaves hb).trans (hp.leaves ha)
  · intro s e h
    obtain hstop | ⟨a, s₁, ha, hb⟩ := bind_eq_error.mp h
    · exact hp.stops hstop
    · exact ((hf a).stops hb).trans (hp.leaves ha)

/-- A reader that always goes on, and drops no more than tokens in front. -/
theorem of_ok {p : Read α} (h : ∀ s, ∃ a s', p s = .ok (a, s') ∧ s'.tokens <:+ s.tokens) :
    Advances p := by
  constructor
  · intro s s' a hs
    obtain ⟨a', s₁, hok, hsuffix⟩ := h s
    rw [hs] at hok
    cases hok
    exact hsuffix
  · intro s f hs
    obtain ⟨a', s₁, hok, -⟩ := h s
    rw [hs] at hok
    cases hok

theorem nested {p : Read α} (hp : Advances p) : Advances (nested p) := by
  constructor
  · intro s s' a h
    obtain ⟨s₁, ha, rfl⟩ := nested_eq_ok.mp h
    have hsuffix := hp.leaves ha
    exact hsuffix
  · intro s f h
    have hsuffix := hp.stops (nested_eq_error.mp h)
    exact hsuffix

theorem header {p : Read α} (hp : Advances p) : Advances (header p) := by
  constructor
  · intro s s' a h
    obtain ⟨s₁, ha, rfl⟩ := header_eq_ok.mp h
    have hsuffix := hp.leaves ha
    exact hsuffix
  · intro s f h
    have hsuffix := hp.stops (header_eq_error.mp h)
    exact hsuffix

end Advances

variable {rec : Phrases} {α : Type}

/-- What is composed of readers that go forward does so. -/
theorem Composed.advances {l : Int} {p : Read α} (hp : Composed rec p l)
    (h : ∀ {β : Type} (ph : Phrase β), Advances (rec ph)) : Advances p := by
  induction hp with
  | of_pure a => exact .of_pure a
  | fail f => exact .fail f
  | peek | peekSecond | level => exact .of_ok fun s => ⟨_, s, rfl, List.suffix_refl _⟩
  | skip =>
    exact .of_ok fun s => ⟨(), { s with tokens := s.tokens.tail }, rfl, List.tail_suffix _⟩
  | bind hp hf ihp ihf => exact .bind ihp ihf
  | nested hp ih => exact .nested ih
  | header hp ih => exact .header ih
  | phrase ph => exact h ph
  | lift hp ih => exact ih

/-- However deep the phrases nest, their readers go forward. -/
theorem read_advance (depth : Nat) (ph : Phrase α) : Advances (Phrase.read depth ph) := by
  induction depth generalizing α with
  | zero => exact .fail _
  | succ depth ih => exact (step_composed ph).advances ih

/-! ## The entry points -/

namespace TokenStream

variable {s : TokenStream} {e : SyntaxError}

/-- The error of a run is found at some end of the stream. -/
theorem run_eq_error (depth : Nat) (l : Int) {p : Read α}
    (hp : Composed (Phrase.read depth) p l) (h : s.run p = .error e) :
    ∃ f, e = s.error f ∧ f.rest <:+ s.tokens := by
  unfold run at h
  cases hrun : p { tokens := s.tokens } with
  | ok r =>
    rw [hrun] at h
    cases h
  | error f =>
    rw [hrun] at h
    cases h
    exact ⟨f, rfl, (hp.advances (read_advance depth)).stops hrun⟩

theorem fragment_eq_error (h : s.fragment = .error e) :
    ∃ f, e = s.error f ∧ f.rest <:+ s.tokens := by
  refine run_eq_error (s.tokens.length + 1) 0 ?_ h
  have hwhole : Composed (Phrase.read _) (whole (s.phrases .stmt)) 0 := whole_composed (.phrase _)
  exact .bind (.atSymbol _) fun _ => .ite (.bind (.unexpected _) fun _ => hwhole) hwhole

theorem imports_eq_error (h : s.imports = .error e) :
    ∃ f, e = s.error f ∧ f.rest <:+ s.tokens := by
  refine run_eq_error 0 0 (whole_composed (.bind (.expectKeyword _) fun _ => ?_)) h
  exact group_composed (ImportSpec.readAll_composed _) ImportSpec.read_composed

theorem expression_eq_error (h : s.expression = .error e) :
    ∃ f, e = s.error f ∧ f.rest <:+ s.tokens :=
  run_eq_error (s.tokens.length + 1) (-1) (whole_composed (.phrase _)) h

end TokenStream

end GoRepl.Syntax
