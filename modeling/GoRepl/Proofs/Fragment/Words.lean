import GoRepl.Proofs.Fragment.Nesting
import GoRepl.Proofs.Syntax.FormedStatements
import GoRepl.Proofs.Syntax.WordsOfPhrases

/-! # Parsed trees are faithful

No name and no literal is lost, doubled or moved on the way from the tokens to the tree.

* `TokenStream.words_of_whole`: a reader of a whole stream keeps its words.
* `TokenStream.words_of_isTree`: the words of every parsed tree are those of its tokens.
-/

namespace GoRepl.Syntax

open Read Grammar

theorem fragmentEnd_keeps {o : List Bool} {ts : List Token} :
    KeepsIn o [] (fun _ => []) ts fragmentEnd := by
  have hend : ∀ zs, KeepsIn o [] (fun _ => []) zs (peek >>= fun k =>
      if (k == .eof) = true then pure () else fail .trailing : Read Unit) := by
    intro zs
    refine .peek fun k _ => ?_
    split
    · exact .of_pure rfl
    · exact .fail _
  unfold fragmentEnd
  exact .atSemicolon (fun hk => .skip rfl (isSilent_of_isSemicolon hk) hend) (hend _)

namespace TokenStream

variable {s : TokenStream}

theorem words_of_whole {α : Type} {words : α → List Word} {p : Read α}
    (hs : ∀ t ∈ s.tokens, t.kind ≠ .eof) (hp : ∀ zs, KeepsIn [] [] words zs p) {a : α}
    (h : s.run (whole p) = .ok a) : words a = Scan.words {} (s.tokens.map (·.kind)) := by
  obtain ⟨s', hrun⟩ := run_eq_ok.mp h
  have hkeeps : KeepsIn [] [] words s.tokens (whole p) :=
    .chain (hp _) fun a _ => .bind fragmentEnd_keeps fun _ _ => .of_pure (by simp)
  obtain ⟨taken, htaken, told, ⟨-, htold⟩, hwords⟩ := hkeeps _ _ _ hrun
  have hnil : s'.tokens = [] := eq_nil_of_whole hs hrun htaken
  rw [htaken, hnil, List.append_nil, htold, hwords, List.nil_append]

/-- The words of every parsed tree are those of its tokens up to the end mark, from left to right.
Where no struct type is among the tokens, these are all their names and literals. -/
theorem words_of_isTree {ts : List Token} {root : Node} (h : (ofTokens ts).IsTree root) :
    let kinds := (ts.takeWhile (·.kind ≠ .eof)).map (·.kind)
    root.words = Scan.words {} kinds ∧
      (.keyword .structKw ∉ kinds → root.words = kinds.filterMap Kind.word?) := by
  intro kinds
  have hs : ∀ t ∈ (ofTokens ts).tokens, t.kind ≠ .eof := fun t => ne_eof_of_ofTokens
  have hkeep : Phrases.Keep (ofTokens ts).phrases := read_keep _
  have houter : ([] : List Bool).head? ≠ some true := nofun
  have hwords : root.words = Scan.words {} kinds := by
    cases h with
    | fragment read =>
      rw [fragment_run (fragment_eq_ok.mp read).1] at read
      exact words_of_whole hs (fun zs => hkeep .stmt [] zs houter) read
    | expression read =>
      exact words_of_whole hs (fun zs => hkeep (.binary 1) [] zs houter) read
  refine ⟨hwords, fun hstruct => ?_⟩
  rw [hwords, Scan.words_eq_filterMap hstruct rfl List.not_mem_nil]

/-- An assignment of a literal with a struct type, whose first field has a tag, and a call without
struct types. -/
theorem words_struct :
    let ts := spell [.name "x", .symbol .comma, .name "y", .symbol .assign, .keyword .structKw,
      .symbol .lbrace, .name "a", .name "int", .literal .string "tag", .symbol .semicolon,
      .name "b", .name "T", .symbol .rbrace, .symbol .lbrace, .literal .int "1", .symbol .comma,
      .literal .string "s", .symbol .rbrace, .symbol .comma, .name "p", .symbol .period,
      .name "q", .newline, .eof]
    let type : Expr := .structType [.mk ["a"] (.name "int"), .mk ["b"] (.name "T")]
    let value : Expr := .composite (some type) [.literal "1", .literal "s"]
    let root : Node :=
      .stmt (.simple (.assign [.name "x", .name "y"] .assign [value, .selector (.name "p") "q"]))
    let us := spell [.name "f", .symbol .lparen, .literal .string "s", .symbol .rparen, .eof]
    let call : Node := .expr (.call (.name "f") [.literal "s"] false)
    (ofTokens ts).IsTree root ∧ root.words = [.name "x", .name "y", .name "a", .name "int",
      .name "b", .name "T", .literal "1", .literal "s", .name "p", .name "q"] ∧
    (ofTokens us).IsTree call ∧ call.words = [.name "f", .literal "s"] := by
  intro ts type value root us call
  let assigned : Simple :=
    .assign [.name "x", .name "y"] .assign [value, .selector (.name "p") "q"]
  -- the tree is read part by part: the left side, the literal, the right side, the statement
  have hleft : exprs (Phrase.read 23) ⟨(ofTokens ts).tokens, 0⟩ =
      .ok ([.name "x", .name "y"], ⟨(ofTokens ts).tokens.drop 3, 0⟩) := rfl
  have hvalue : expr (Phrase.read 23) ⟨(ofTokens ts).tokens.drop 4, 0⟩ =
      .ok (value, ⟨(ofTokens ts).tokens.drop 18, 0⟩) := rfl
  have hright : exprs (Phrase.read 23) ⟨(ofTokens ts).tokens.drop 4, 0⟩ =
      .ok ([value, .selector (.name "p") "q"], ⟨spell [.newline], 0⟩) :=
    bind_eq_ok.mpr ⟨value, _, hvalue, rfl⟩
  have hassign : assignment (Phrase.read 23) [.name "x", .name "y"] .assign
      ⟨(ofTokens ts).tokens.drop 3, 0⟩ = .ok (assigned, ⟨spell [.newline], 0⟩) :=
    bind_eq_ok.mpr ⟨(), _, rfl, bind_eq_ok.mpr ⟨_, _, hright, rfl⟩⟩
  have hsign : headKind ((ofTokens ts).tokens.drop 3) = .symbol .assign := rfl
  have htail : simpleTail (Phrase.read 23) [.name "x", .name "y"]
      ⟨(ofTokens ts).tokens.drop 3, 0⟩ = .ok (assigned, ⟨spell [.newline], 0⟩) := by
    rw [simpleTail, peek_bind, hsign]
    exact hassign
  have hstmt : stmt (Phrase.read 23) ⟨(ofTokens ts).tokens, 0⟩ =
      .ok (.simple assigned, ⟨[], 0⟩) := by
    have hfirst : headKind (ofTokens ts).tokens = .name "x" := rfl
    rw [stmt, peek_bind, hfirst]
    refine bind_eq_ok.mpr ⟨_, _, hleft, ?_⟩
    rw [peek_bind, hsign]
    exact bind_eq_ok.mpr ⟨assigned, _, htail, rfl⟩
  have hroot : (ofTokens ts).IsTree root :=
    .fragment (fragment_eq_ok.mpr ⟨Kind.noConfusion, _, _, hstmt, rfl⟩)
  have hcall : (ofTokens us).IsTree call := .expression rfl
  exact ⟨hroot, (words_of_isTree hroot).1, hcall, (words_of_isTree hcall).2 (by decide)⟩

end TokenStream

end GoRepl.Syntax
