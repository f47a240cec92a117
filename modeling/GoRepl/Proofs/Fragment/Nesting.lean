import GoRepl.Fragment.Shape
import GoRepl.Proofs.Syntax.Control
import GoRepl.Proofs.Syntax.NestedPhrases
import GoRepl.Proofs.Token.Kinds

/-! # Accepted fragments are complete

A reader of a whole fragment takes all tokens, so the brackets of an accepted source are nested.
A fragment with a shape is therefore never one that waits for its next line.

* `ImportSpec.readAll_takes`: import declarations take nested tokens.
* `TokenStream.nested_of_whole`: so does a whole stream that is read to its end.
* `TokenStream.Accepted`: some entry point accepts the stream.
* `nested_of_source`: the kinds of all tokens of an accepted source are nested.
* `accepted_complete`: and a source with a shape does not go on with the next line.
-/

namespace GoRepl

namespace Syntax

open Read Grammar

variable {ts : List Token}

theorem ImportSpec.read_takes : Takes [] ts ImportSpec.read := by
  unfold ImportSpec.read
  extract_lets path
  have hpath : ∀ name zs, Takes [] zs (path name) := by
    intro name zs
    refine .peek fun k hk => ?_
    split
    · dsimp only
      split
      · exact .fail_bind _ _
      · exact .skip hk rfl fun _ => .of_pure _
    · exact .unexpected _
  refine .peek fun k hk => ?_
  split
  · exact .skip hk rfl fun _ => hpath _ _
  · exact .skip hk rfl fun _ => hpath _ _
  · exact hpath _ _

theorem ImportSpec.readAll_takes (bound : Nat) : Takes [] ts (ImportSpec.readAll bound) := by
  induction bound generalizing ts with
  | zero => exact .fail _
  | succ bound ih =>
    unfold ImportSpec.readAll
    refine .atListEnd fun b => ?_
    split
    · exact .of_pure _
    · refine .bind read_takes fun i _ => .bind .statementEnd fun _ _ => ?_
      exact .bind ih fun is _ => .of_pure _

theorem fragmentEnd_takes : Takes [] ts fragmentEnd := by
  have hend : ∀ zs, Takes [] zs (peek >>= fun k => if (k == .eof) = true then pure ()
      else fail .trailing : Read Unit) := by
    intro zs
    refine .peek fun k _ => ?_
    split
    · exact .of_pure _
    · exact .fail _
  unfold fragmentEnd
  refine .atSemicolon (fun hk => .skip rfl ?_ hend) (hend _)
  rcases isSemicolon_iff.mp hk with he | he <;> rw [he] <;> rfl

/-- A fragment ends where the source does. -/
theorem headKind_of_fragmentEnd {l : Int} {s : ReadState}
    (h : fragmentEnd ⟨ts, l⟩ = .ok ((), s)) : headKind s.tokens = .eof := by
  unfold fragmentEnd at h
  rw [atSemicolon_bind] at h
  cases hs : (headKind ts).isSemicolon with
  | true =>
    rw [hs] at h
    obtain ⟨hk, rfl⟩ := TokenStream.atEnd_eq_ok h
    exact hk
  | false =>
    rw [hs] at h
    obtain ⟨hk, rfl⟩ := TokenStream.atEnd_eq_ok h
    exact hk

namespace TokenStream

variable {α : Type} {s : TokenStream}

theorem ne_eof_of_ofTokens {t : Token} (h : t ∈ (ofTokens ts).tokens) : t.kind ≠ .eof := by
  simpa using List.mem_takeWhile_imp h

/-- A stream that is read to its end is taken as a whole. -/
theorem eq_nil_of_whole (hs : ∀ t ∈ s.tokens, t.kind ≠ .eof) {p : Read α} {a : α} {s' : ReadState}
    (h : whole p ⟨s.tokens, 0⟩ = .ok (a, s')) {taken : List Token}
    (htaken : s.tokens = taken ++ s'.tokens) : s'.tokens = [] := by
  have hleft : headKind s'.tokens = .eof := by
    obtain ⟨s₁, -, hend⟩ := whole_eq_ok.mp h
    exact headKind_of_fragmentEnd hend
  cases hts : s'.tokens with
  | nil => rfl
  | cons t ts =>
    rw [hts] at hleft htaken
    exact absurd hleft (hs t (by simp [htaken]))

/-- A stream that is read to its end is nested as a whole. -/
theorem nested_of_whole (hs : ∀ t ∈ s.tokens, t.kind ≠ .eof) {p : Read α}
    (hp : ∀ zs, Takes [] zs p) {a : α} (h : s.run (whole p) = .ok a) :
    Nested (s.tokens.map (·.kind)) := by
  obtain ⟨s', hrun⟩ := run_eq_ok.mp h
  have htakes : Takes [] s.tokens (whole p) :=
    .bind (hp _) fun a _ => .bind fragmentEnd_takes fun _ _ => .of_pure _
  obtain ⟨taken, htaken, hn⟩ := htakes _ _ _ hrun
  rw [htaken, eq_nil_of_whole hs hrun htaken, List.append_nil]
  exact hn

theorem nested_of_fragment (hs : ∀ t ∈ s.tokens, t.kind ≠ .eof) {x : Stmt}
    (h : s.fragment = .ok x) : Nested (s.tokens.map (·.kind)) := by
  refine nested_of_whole hs (fun _ => read_nest (s.tokens.length + 1) .stmt _) (a := x) ?_
  rwa [fragment_run (fragment_eq_ok.mp h).1] at h

theorem nested_of_imports (hs : ∀ t ∈ s.tokens, t.kind ≠ .eof) {is : List ImportSpec}
    (h : s.imports = .ok is) : Nested (s.tokens.map (·.kind)) :=
  nested_of_whole hs (fun _ => .expectKeyword fun _ =>
    group_takes (fun _ => ImportSpec.readAll_takes _) fun _ => ImportSpec.read_takes) h

theorem nested_of_expression (hs : ∀ t ∈ s.tokens, t.kind ≠ .eof) {x : Expr}
    (h : s.expression = .ok x) : Nested (s.tokens.map (·.kind)) :=
  nested_of_whole hs (fun _ => read_nest (s.tokens.length + 1) (.binary 1) _) h

/-- Some entry point accepts the stream. -/
def Accepted (s : TokenStream) : Prop :=
  (∃ x, s.fragment = .ok x) ∨ (∃ is, s.imports = .ok is) ∨ ∃ x, s.expression = .ok x

theorem Accepted.nested (hs : ∀ t ∈ s.tokens, t.kind ≠ .eof) (h : s.Accepted) :
    Nested (s.tokens.map (·.kind)) := by
  obtain ⟨x, hx⟩ | ⟨is, his⟩ | ⟨x, hx⟩ := h
  · exact nested_of_fragment hs hx
  · exact nested_of_imports hs his
  · exact nested_of_expression hs hx

end TokenStream

/-- The stream of a source has all of its tokens but the end mark. -/
theorem TokenStream.exists_of_source {source : String} (hts : Token.ofSource source = .ok ts) :
    ∃ t, ts = (ofTokens ts).tokens ++ [t] ∧ t.kind = .eof := by
  obtain ⟨zs, t, rfl, ht, hzs⟩ := Token.ofSource_eof hts
  have htokens : (ofTokens (zs ++ [t])).tokens = zs := by
    refine (List.takeWhile_append_of_pos fun z hz => ?_).trans ?_
    · simpa using hzs z hz
    · simp [ht]
  exact ⟨t, by rw [htokens], ht⟩

/-- The kinds of all tokens of an accepted source are nested. -/
theorem nested_of_source {source : String} (hts : Token.ofSource source = .ok ts)
    (h : (TokenStream.ofTokens ts).Accepted) : Nested (ts.map (·.kind)) := by
  obtain ⟨t, htokens, ht⟩ := TokenStream.exists_of_source hts
  have hn := h.nested fun z hz => TokenStream.ne_eof_of_ofTokens hz
  rw [htokens, List.map_append]
  exact hn.append (.other (congrArg Kind.depth ht) .nil)

end Syntax

open Syntax

/-- Nested tokens do not go on with the next line. -/
theorem Framing.needsMore_of_nested {source : String} {ts : List Token}
    (hts : Token.ofSource source = .ok ts) (h : Nested (ts.map (·.kind))) :
    needsMore source = false := by
  have hzero := h.depth_eq_zero
  rw [List.map_map] at hzero
  unfold needsMore
  rw [hts]
  simp only [depth_eq_sum]
  change decide ((ts.map (Kind.depth ∘ (·.kind))).sum > 0) = false
  rw [hzero]
  rfl

namespace Shape

theorem ofSource_eq_ok {α : Type} {p : TokenStream → Except SyntaxError α} {source : String}
    {a : α} (h : Syntax.ofSource p source = .ok a) :
    ∃ ts, Token.ofSource source = .ok ts ∧ p (TokenStream.ofTokens ts) = .ok a := by
  unfold Syntax.ofSource at h
  cases hts : Token.ofSource source with
  | error e =>
    rw [hts] at h
    cases h
  | ok ts =>
    simp only [hts] at h
    refine ⟨ts, rfl, ?_⟩
    cases hp : p (TokenStream.ofTokens ts) with
    | error e =>
      rw [hp] at h
      cases h
    | ok b =>
      rw [hp] at h
      cases h
      rfl

theorem ofImport_eq_ok {source : String} {shape : Shape} : ofImport source = .ok shape ↔
    ∃ specs, parseImports source = .ok specs ∧ shape = imports (specs.map (·.path)) := by
  unfold ofImport
  cases parseImports source <;> simp [Except.map, eq_comm]

theorem ofStatement_eq_ok {source : String} {shape : Shape} : ofStatement source = .ok shape ↔
    ∃ x, parseFragment source = .ok x ∧ shape = ofStmt x := by
  unfold ofStatement
  cases parseFragment source <;> simp [Except.map, eq_comm]

theorem accepted {source : String} {shape : Shape} (h : ofSource source = .ok shape) :
    ∃ ts, Token.ofSource source = .ok ts ∧ (TokenStream.ofTokens ts).Accepted := by
  unfold ofSource at h
  split at h
  · obtain ⟨is, hparse, -⟩ := ofImport_eq_ok.mp h
    obtain ⟨ts, hts, his⟩ := ofSource_eq_ok hparse
    exact ⟨ts, hts, .inr (.inl ⟨is, his⟩)⟩
  · obtain ⟨x, hparse, -⟩ := ofStatement_eq_ok.mp h
    obtain ⟨ts, hts, hx⟩ := ofSource_eq_ok hparse
    exact ⟨ts, hts, .inl ⟨x, hx⟩⟩

/-- A source with a shape does not go on with the next line. -/
theorem not_needsMore {source : String} {shape : Shape} (h : ofSource source = .ok shape) :
    Framing.needsMore source = false := by
  obtain ⟨ts, hts, hacc⟩ := accepted h
  exact Framing.needsMore_of_nested hts (nested_of_source hts hacc)

end Shape

/-- The brackets of an accepted source are nested, and a source with a shape does not go on with the
next line. -/
theorem accepted_complete (source : String) :
    (∀ ts, Token.ofSource source = .ok ts → (TokenStream.ofTokens ts).Accepted →
      Nested (ts.map (·.kind))) ∧
    (∀ shape, Shape.ofSource source = .ok shape → Framing.needsMore source = false) :=
  ⟨fun _ hts h => nested_of_source hts h, fun _ h => Shape.not_needsMore h⟩

theorem accepted_complete_call :
    (∃ ts, Token.ofSource "f(m[k])" = .ok ts ∧ (TokenStream.ofTokens ts).Accepted ∧
      Nested (ts.map (·.kind))) ∧
    Shape.ofSource "f(m[k])" = .ok (.expression .call) ∧ Framing.needsMore "f(m[k])" = false := by
  have hshape : Shape.ofSource "f(m[k])" = .ok (.expression .call) := by decide +kernel
  obtain ⟨ts, hts, hacc⟩ := Shape.accepted hshape
  obtain ⟨hnested, hmore⟩ := accepted_complete "f(m[k])"
  exact ⟨⟨ts, hts, hacc, hnested ts hts hacc⟩, hshape, hmore _ hshape⟩

example : Framing.needsMore "f(m[" = true ∧ Framing.needsMore "f(m[k]))" = false := by
  decide +kernel

end GoRepl
