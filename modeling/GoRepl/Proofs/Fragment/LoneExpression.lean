import GoRepl.Proofs.Fragment.PrintedValue
import GoRepl.Proofs.Token.Trimmed
import GoRepl.Session.Basic

/-! # Lone expressions

A source is read as an expression exactly if it is read as a statement that consists of that
expression, and does not end in two semicolons.  So what is printed as a value is what the shape of
a fragment says is a bare expression.

* `TokenStream.expression_eq_ok_iff`, `TokenStream.fragment_eq_expr_iff`: what both entry points
  demand of the tokens behind an expression.
* `TokenStream.expression_iff_fragment`: the difference are two semicolons.
* `Shape.headKind_of_startsWithImport`: an expression is never taken for an import.
* `Session.printOnce_expression`: what is printed as a value is this expression.
* `parseExpression_iff`: the same for source texts, with the shape and the way through a session.
-/

namespace GoRepl

namespace Syntax

open Read Grammar

/-- The tokens end in two semicolons before the end mark. -/
def EndsInTwoSemicolons (ts : List Token) : Prop :=
  ∃ front a b e, ts = front ++ [a, b, e] ∧ a.kind.isSemicolon = true ∧
    b.kind.isSemicolon = true ∧ e.kind = .eof

namespace TokenStream

variable {s : TokenStream} {x : Expr}

/-- The tokens of the stream are an expression and at most `n` semicolons behind it. -/
def IsExpression (s : TokenStream) (n : Nat) (x : Expr) : Prop :=
  ∃ taken zs, s.tokens = taken ++ zs ∧ EndsStatement true taken ∧
    (∀ t ∈ zs, t.kind.isSemicolon = true) ∧ zs.length ≤ n ∧
    Phrase.read (s.tokens.length + 1) (.binary 1) ⟨s.tokens, 0⟩ = .ok (x, ⟨zs, 0⟩)

theorem expression_eq_ok_iff (hs : ∀ t ∈ s.tokens, t.kind ≠ .eof) :
    s.expression = .ok x ↔ s.IsExpression 1 x := by
  unfold expression phrases
  rw [run_eq_ok]
  simp only [whole_eq_ok]
  constructor
  · rintro ⟨s', ⟨zs, l⟩, hx, hend⟩
    obtain ⟨taken, htaken, hends⟩ := (read_ends _).binary 1 s.tokens 0 x ⟨zs, l⟩ hx
    obtain rfl : l = 0 := read_keepsLevel _ _ _ _ _ hx
    refine ⟨taken, zs, htaken, hends, ?_⟩
    rcases fragmentEnd_eq_ok (fun t ht => hs t (htaken ▸ List.mem_append_right _ ht)) hend with
      rfl | ⟨t, rfl, ht⟩
    · exact ⟨by simp, by simp, hx⟩
    · exact ⟨List.forall_mem_singleton.mpr ht, by simp, hx⟩
  · rintro ⟨taken, zs, -, -, hsemi, hlen, hx⟩
    exact ⟨⟨[], 0⟩, ⟨zs, 0⟩, hx, fragmentEnd_of_semicolons hsemi hlen 0⟩

theorem fragment_eq_expr_iff (hs : ∀ t ∈ s.tokens, t.kind ≠ .eof) :
    s.fragment = .ok (.simple (.expr x)) ↔ s.IsExpression 2 x := by
  refine ⟨expression_of_fragment hs, ?_⟩
  rintro ⟨taken, zs, -, -, hsemi, hlen, hx⟩
  exact fragment_of_expr hsemi hlen hx

/-- Of an expression with at most two semicolons behind it there are two exactly if the tokens end
in two. -/
theorem IsExpression.one_iff {e : Token} (he : e.kind = .eof) (h : s.IsExpression 2 x) :
    s.IsExpression 1 x ↔ ¬EndsInTwoSemicolons (s.tokens ++ [e]) := by
  constructor
  · rintro ⟨taken, zs, htokens, hends, -, hlen, -⟩ ⟨front, a, b, e', heq, ha, hb, -⟩
    obtain ⟨c, hc, hce⟩ := hends.last_kind
    have hlast (front : List Token) (d : Token) (hd : d.kind.isSemicolon = true) :
        taken ≠ front ++ [d] := by
      rintro rfl
      rw [List.map_append, List.map_singleton, List.getLast?_concat, Option.some.injEq] at hc
      rw [← hc, not_endsStatement hd] at hce
      cases hce
    have htwo : s.tokens = front ++ [a, b] := by
      have happend : s.tokens ++ [e] = (front ++ [a, b]) ++ [e'] := by simpa using heq
      exact (List.append_inj' happend rfl).1
    rw [htokens] at htwo
    -- at most one of the two semicolons stands behind the expression
    cases zs with
    | nil => exact hlast (front ++ [a]) b hb (by simpa using htwo)
    | cons t ts =>
      cases List.length_eq_zero_iff.mp (Nat.le_zero.mp (Nat.le_of_succ_le_succ hlen))
      have happend : taken ++ [t] = (front ++ [a]) ++ [b] := by simpa using htwo
      exact hlast front a ha (List.append_inj' happend rfl).1
  · intro htwo
    obtain ⟨taken, zs, htokens, hends, hsemi, hlen, hx⟩ := h
    refine ⟨taken, zs, htokens, hends, hsemi, ?_, hx⟩
    by_contra hlong
    obtain ⟨a, b, rfl⟩ := List.length_eq_two.mp (show zs.length = 2 by omega)
    refine htwo ⟨taken, a, b, e, ?_, hsemi a (by simp), hsemi b (by simp), he⟩
    rw [htokens, List.append_assoc]
    rfl

/-- The entry points for expressions and fragments differ in the semicolons that they allow. -/
theorem expression_iff_fragment (hs : ∀ t ∈ s.tokens, t.kind ≠ .eof) {e : Token}
    (he : e.kind = .eof) : s.expression = .ok x ↔
      s.fragment = .ok (.simple (.expr x)) ∧ ¬EndsInTwoSemicolons (s.tokens ++ [e]) := by
  rw [expression_eq_ok_iff hs, fragment_eq_expr_iff hs]
  constructor
  · intro h
    have htwo : s.IsExpression 2 x := by
      obtain ⟨taken, zs, htokens, hends, hsemi, hlen, hx⟩ := h
      exact ⟨taken, zs, htokens, hends, hsemi, hlen.trans (by decide), hx⟩
    exact ⟨htwo, (htwo.one_iff he).mp h⟩
  · rintro ⟨htwo, hnot⟩
    exact (htwo.one_iff he).mpr hnot

end TokenStream

end Syntax

open Syntax

namespace Shape

/-- A source that starts with the word `import` has that keyword as its first token. -/
theorem headKind_of_startsWithImport {source : String} {ts : List Token}
    (h : startsWithImport source = true) (hts : Token.ofSource source = .ok ts) :
    Read.headKind ts = .keyword .importKw := by
  obtain ⟨qs, hqs, hkinds⟩ := Token.map_kind_ofSource hts
  have hblank : ∀ c ∈ source.toList.takeWhile Text.isBlank, Text.isBlank c = true :=
    fun c hc => List.mem_takeWhile_imp hc
  rw [← List.takeWhile_append_dropWhile (p := Text.isBlank) (l := source.toList)] at hqs
  obtain ⟨ps, hps, hsame⟩ := Piece.kinds_of_blank_append hblank hqs
  unfold startsWithImport Text.trimStart at h
  rw [Bool.and_eq_true, List.isPrefixOf_iff_prefix] at h
  obtain ⟨⟨rest, hrest⟩, hend⟩ := h
  rw [← hrest] at hps hend
  rw [List.drop_left] at hend
  have hword : rest.takeWhile Number.isWordChar = [] := by
    cases rest with
    | nil => rfl
    | cons c rest => exact List.takeWhile_cons_of_neg (by simpa using hend)
  have htake : ("mport".toList ++ rest).takeWhile Number.isWordChar = "mport".toList := by
    rw [List.takeWhile_append_of_pos (List.all_eq_true.mp (by decide +kernel)), hword]
    rfl
  have hps' : Piece.cut ('i' :: ("mport".toList ++ rest)) = .ok ps := hps
  obtain ⟨p, ps', hfirst, -, rfl⟩ := Piece.cut_cons hps'
  rw [Piece.first_word (by decide +kernel), htake] at hfirst
  cases hfirst
  exact headKind_of_map (hkinds.trans hsame)

end Shape

variable {source : String} {x : Expr}

theorem startsWithImport_of_expression (h : parseExpression source = .ok x) :
    Shape.startsWithImport source = false := by
  rw [Bool.eq_false_iff]
  intro himport
  obtain ⟨ts, hts, hx⟩ := Shape.ofSource_eq_ok h
  obtain ⟨e, htokens, -⟩ := TokenStream.exists_of_source hts
  have hs : ∀ t ∈ (TokenStream.ofTokens ts).tokens, t.kind ≠ .eof := fun t =>
    TokenStream.ne_eof_of_ofTokens
  obtain ⟨taken, zs, -, -, -, -, hread⟩ := (TokenStream.expression_eq_ok_iff hs).mp hx
  have hstart : Grammar.startsSimple (Read.headKind (TokenStream.ofTokens ts).tokens) = true :=
    expr_starts hread
  have hhead := Shape.headKind_of_startsWithImport himport hts
  rw [htokens] at hhead
  cases htoks : (TokenStream.ofTokens ts).tokens with
  | nil =>
    rw [htoks] at hstart
    cases hstart
  | cons t rest =>
    rw [htoks] at hstart hhead
    rw [show Read.headKind (t :: rest) = .keyword .importKw from hhead] at hstart
    cases hstart

theorem ofSource_eq_ok_iff {α : Type} {p : TokenStream → Except SyntaxError α} {ts : List Token}
    (hts : Token.ofSource source = .ok ts) {a : α} :
    Syntax.ofSource p source = .ok a ↔ p (TokenStream.ofTokens ts) = .ok a := by
  unfold Syntax.ofSource
  rw [hts]
  dsimp only
  cases p (TokenStream.ofTokens ts) <;> simp

theorem parseExpression_eq_ok_iff : parseExpression source = .ok x ↔
    parseFragment source = .ok (.simple (.expr x)) ∧
      ∀ ts, Token.ofSource source = .ok ts → ¬EndsInTwoSemicolons ts := by
  cases hts : Token.ofSource source with
  | error e =>
    unfold parseExpression parseFragment Syntax.ofSource
    simp [hts]
  | ok ts =>
    obtain ⟨e, htokens, he⟩ := TokenStream.exists_of_source hts
    have hkinds (t : Token) : t ∈ (TokenStream.ofTokens ts).tokens → t.kind ≠ .eof :=
      TokenStream.ne_eof_of_ofTokens
    have hiff := TokenStream.expression_iff_fragment (x := x) hkinds he
    rw [← htokens] at hiff
    rw [parseExpression, parseFragment, ofSource_eq_ok_iff hts, ofSource_eq_ok_iff hts, hiff]
    simp only [Except.ok.injEq, forall_eq']

/-- A lone expression is a bare expression to the shape of a fragment. -/
theorem shape_of_expression (h : parseExpression source = .ok x) :
    Shape.ofSource source = .ok (.expression (Shape.useOf x)) := by
  have hfragment := (parseExpression_eq_ok_iff.mp h).1
  rw [Shape.ofSource, startsWithImport_of_expression h, if_neg Bool.false_ne_true,
    Shape.ofStatement_eq_ok]
  exact ⟨_, hfragment, rfl⟩

theorem ne_empty_of_expression (h : parseExpression source = .ok x) : source.isEmpty = false := by
  rw [Bool.eq_false_iff]
  intro hempty
  rw [String.isEmpty_iff] at hempty
  subst hempty
  have hrejected : (parseExpression "").isOk = false := by decide +kernel
  rw [h] at hrejected
  cases hrejected

/-- A session prints a lone expression that is a value, and enters one that is a call or a receive
as the bare expression that it is. -/
theorem Session.submitWith_expression (s : Session) (c : Toolchain) (mode : Mode)
    (persisted : Bool) {fragment : String} (h : parseExpression (Text.trim fragment) = .ok x) :
    (Shape.useOf x = .value → s.submitWith c mode persisted fragment =
      s.printValue c mode (Text.trim fragment)) ∧
    (Shape.useOf x ≠ .value → s.log.isDeclared (Text.trim fragment) = false →
      s.submitWith c mode persisted fragment = s.enter c mode persisted (Text.trim fragment)
        (.expression (Shape.useOf x))) := by
  unfold submitWith
  simp only [ne_empty_of_expression h, Bool.false_eq_true, if_false, shape_of_expression h,
    Shape.use?, Option.some.injEq]
  constructor
  · intro hvalue
    rw [if_pos hvalue]
    exact ite_self _
  · intro hvalue hdeclared
    rw [hdeclared, if_neg Bool.false_ne_true, if_neg hvalue]

/-- The turn that builds the print of a text and forgets it. -/
def Session.printed (s : Session) (c : Toolchain) (text : String) : Turn Answer :=
  let n := s.sequence + 1
  let t := (s.append ⟨n, .print, Echo.expression text⟩).build c
  { t with session := t.session.rollback n }

/-- The print of a text is built if the text without blank ends is an expression; otherwise the text
is rejected, and nothing is built. -/
theorem Session.printOnce_expression (s : Session) (c : Toolchain) (text : String) :
    (∀ x, parseExpression (Text.trim text) = .ok x →
      s.printOnce c text = s.printed c (Text.trim text)) ∧
    ∀ e, parseExpression (Text.trim text) = .error e →
      s.printOnce c text = s.unchanged (.error (.parse e)) := by
  unfold printOnce
  constructor
  · intro x h
    simp only [h]
    rfl
  · intro e h
    simp only [h]

/-- An expression is read as such exactly if it is read as a statement that consists of it and has
no second semicolon behind it.  To a session it is a bare expression, and one that is a value is
printed: the text that is checked before that is read as the same expression, so the print is
built. -/
theorem parseExpression_iff (source : String) (x : Expr) :
    (parseExpression source = .ok x ↔ parseFragment source = .ok (.simple (.expr x)) ∧
      ∀ ts, Token.ofSource source = .ok ts → ¬EndsInTwoSemicolons ts) ∧
    (parseExpression source = .ok x →
      Shape.ofSource source = .ok (.expression (Shape.useOf x)) ∧
      ∀ (s : Session) c mode persisted fragment, Text.trim fragment = source →
        (Shape.useOf x = .value →
          s.submitWith c mode persisted fragment = s.printValue c mode source) ∧
        (Shape.useOf x ≠ .value → s.log.isDeclared source = false →
          s.submitWith c mode persisted fragment =
            s.enter c mode persisted source (.expression (Shape.useOf x))) ∧
        parseExpression (Text.trim source) = .ok x ∧
        s.printOnce c source = s.printed c source) := by
  refine ⟨parseExpression_eq_ok_iff, fun h => ⟨shape_of_expression h, ?_⟩⟩
  rintro s c mode persisted fragment rfl
  obtain ⟨hvalue, hother⟩ := s.submitWith_expression c mode persisted h
  have htrim : parseExpression (Text.trim (Text.trim fragment)) = .ok x := by
    rwa [Text.trim_trim]
  have hprint := (s.printOnce_expression c (Text.trim fragment)).1 x htrim
  rw [Text.trim_trim] at hprint
  exact ⟨hvalue, hother, htrim, hprint⟩

/-- A sum with a semicolon behind it is an expression, and printed as such. -/
theorem parseExpression_sum :
    let s : Session := { files := {}, workshop := default }
    let c := Toolchain.unavailable .notFound
    ∃ x, parseExpression "a + b;" = .ok x ∧ parseFragment "a + b;" = .ok (.simple (.expr x)) ∧
      Shape.useOf x = .value ∧
      s.submitWith c .buildAndRun true " a + b; " = s.printOnce c "a + b;" ∧
      s.printOnce c "a + b;" = s.printed c "a + b;" := by
  intro s c
  have hok : (parseExpression "a + b;").isOk = true := by decide +kernel
  have hvalue : Shape.ofSource "a + b;" = .ok (.expression .value) := by decide +kernel
  cases hx : parseExpression "a + b;" with
  | error e =>
    rw [hx] at hok
    cases hok
  | ok x =>
    obtain ⟨hiff, hroute⟩ := parseExpression_iff "a + b;" x
    obtain ⟨hshape, hsession⟩ := hroute hx
    rw [hvalue] at hshape
    injection hshape with hshape
    injection hshape with huse
    have htrim : Text.trim " a + b; " = "a + b;" := by decide +kernel
    obtain ⟨hprint, -, -, hbuilt⟩ := hsession s c .buildAndRun true _ htrim
    exact ⟨x, rfl, (hiff.mp hx).1, huse.symm, hprint huse.symm, hbuilt⟩

example : (parseExpression "x;;").isOk = false ∧ (parseFragment "x;;").isOk = true := by
  decide +kernel

end GoRepl
