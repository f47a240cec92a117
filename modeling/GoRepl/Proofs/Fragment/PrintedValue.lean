import GoRepl.Proofs.Fragment.Nesting
import GoRepl.Proofs.Syntax.Levels
import GoRepl.Proofs.Syntax.PrintCall
import GoRepl.Proofs.Syntax.Statement
import GoRepl.Proofs.Token.Spliced

/-! # The print of a bare value

A bare expression is printed by a call with its text as the argument.  The call is a statement with
the tree of the expression in it if nothing stands between the last token of the text and the
closing parentheses that ends the line, or hides the parentheses in a comment.

* `TokenStream.expression_of_fragment`, `TokenStream.fragment_of_expr`: what a fragment that is an
  expression consists of.
* `TokenStream.fragment_printed`, `TokenStream.fragment_printed_error`: the tokens of the call.
* `TokenStream.fragment_of_print`: which of the two happens.
* `Shape.print_of_expression`: the same for source texts.
-/

namespace GoRepl

namespace Syntax

open Read Grammar

/-- Behind a statement there is a semicolon, or what ends a list of statements. -/
theorem statementEnd_eq_ok {zs : List Token} {l : Int} {s : ReadState}
    (h : statementEnd ⟨zs, l⟩ = .ok ((), s)) :
    ((headKind zs).isSemicolon = true ∧ s = ⟨zs.tail, l⟩) ∨
    ((headKind zs).isSemicolon = false ∧ s = ⟨zs, l⟩) := by
  rw [statementEnd, peek_bind] at h
  generalize headKind zs = k at h
  split at h
  · cases h
    exact .inl ⟨rfl, rfl⟩
  · cases h
    exact .inl ⟨rfl, rfl⟩
  all_goals
    cases h
    try exact .inr ⟨rfl, rfl⟩

/-- A fragment ends behind its last token, or in front of a last semicolon. -/
theorem fragmentEnd_of_semicolons {zs : List Token} (hz : ∀ t ∈ zs, t.kind.isSemicolon = true)
    (hlen : zs.length ≤ 1) (l : Int) : fragmentEnd ⟨zs, l⟩ = .ok ((), ⟨[], l⟩) := by
  cases zs with
  | nil => rfl
  | cons t ts =>
    cases List.length_eq_zero_iff.mp (Nat.le_zero.mp (Nat.le_of_succ_le_succ hlen))
    have hhead : (headKind [t]).isSemicolon = true := hz t List.mem_cons_self
    rw [fragmentEnd, atSemicolon_bind, hhead]
    rfl

namespace TokenStream

/-- An expression that is a fragment has nothing behind it but semicolons. -/
theorem expression_of_fragment {s : TokenStream} (hs : ∀ t ∈ s.tokens, t.kind ≠ .eof) {x : Expr}
    (h : s.fragment = .ok (.simple (.expr x))) :
    ∃ taken zs, s.tokens = taken ++ zs ∧ EndsStatement true taken ∧
      (∀ t ∈ zs, t.kind.isSemicolon = true) ∧ zs.length ≤ 2 ∧
      Phrase.read (s.tokens.length + 1) (.binary 1) ⟨s.tokens, 0⟩ = .ok (x, ⟨zs, 0⟩) := by
  obtain ⟨-, s₁, s₂, hstmt, hend⟩ := fragment_eq_ok.mp h
  obtain ⟨k, hk⟩ : ∃ k, s.tokens.length = k + 1 := by
    refine Nat.exists_eq_succ_of_ne_zero fun hzero => ?_
    rw [phrases, List.length_eq_zero_iff.mp hzero] at hstmt
    cases hstmt
  rw [phrases, hk] at hstmt
  obtain ⟨⟨zs, l⟩, hx, hafter⟩ := stmt_eq_expr hstmt
  obtain ⟨taken, htaken, hends⟩ := (read_ends (k + 2)).binary 1 s.tokens 0 x ⟨zs, l⟩ hx
  obtain rfl : l = 0 := read_keepsLevel _ _ _ _ _ hx
  have hne : ∀ t ∈ zs, t.kind ≠ .eof := fun t ht => hs t (htaken ▸ List.mem_append_right _ ht)
  refine ⟨taken, zs, htaken, hends, ?_⟩
  rw [hk]
  rcases statementEnd_eq_ok hafter with ⟨hsemi, rfl⟩ | ⟨hsemi, rfl⟩
  · cases zs with
    | nil => cases hsemi
    | cons t ts =>
      rcases fragmentEnd_eq_ok (fun u hu => hne u (.tail _ hu)) hend with hnil | ⟨u, hu, husemi⟩
      · rw [show ts = [] from hnil] at hx ⊢
        exact ⟨List.forall_mem_singleton.mpr hsemi, by simp, hx⟩
      · rw [show ts = [u] from hu] at hx ⊢
        have hboth : ∀ v ∈ [t, u], v.kind.isSemicolon = true :=
          List.forall_mem_cons.mpr ⟨hsemi, List.forall_mem_singleton.mpr husemi⟩
        exact ⟨hboth, by simp, hx⟩
  · rcases fragmentEnd_eq_ok hne hend with rfl | ⟨u, rfl, husemi⟩
    · exact ⟨by simp, by simp, hx⟩
    · rw [show headKind [u] = u.kind from rfl, husemi] at hsemi
      cases hsemi

/-- An expression with at most two semicolons behind it is a fragment. -/
theorem fragment_of_expr {s : TokenStream} {x : Expr} {zs : List Token}
    (hsemi : ∀ t ∈ zs, t.kind.isSemicolon = true) (hlen : zs.length ≤ 2)
    (hx : Phrase.read (s.tokens.length + 1) (.binary 1) ⟨s.tokens, 0⟩ = .ok (x, ⟨zs, 0⟩)) :
    s.fragment = .ok (.simple (.expr x)) := by
  obtain ⟨k, hk⟩ : ∃ k, s.tokens.length = k + 1 := by
    refine Nat.exists_eq_succ_of_ne_zero fun hzero => ?_
    rw [List.length_eq_zero_iff.mp hzero] at hx
    cases hx
  rw [hk] at hx
  have hz : zs = [] ∨ (headKind zs).isSemicolon = true := by
    cases zs with
    | nil => exact .inl rfl
    | cons t ts => exact .inr (hsemi t List.mem_cons_self)
  have htail : ∀ t ∈ zs.tail, t.kind.isSemicolon = true := fun t ht =>
    hsemi t (List.mem_of_mem_tail ht)
  have hend := fragmentEnd_of_semicolons htail (by rw [List.length_tail]; omega) 0
  refine fragment_eq_ok.mpr ⟨fun hbrace => ?_, ⟨zs.tail, 0⟩, ⟨[], 0⟩, ?_, hend⟩
  · have hstart : startsSimple (headKind s.tokens) = true := expr_starts hx
    rw [hbrace] at hstart
    cases hstart
  · rw [phrases, hk]
    exact stmt_of_expr hx hz

/-! ## The tokens of the print -/

section Print

variable {u : TokenStream} {x : Exchange} {E : Expr} {pre c c' : List Token} {g p : Token}
  (hu : u.tokens = pre ++ g :: p :: (c' ++ x.new)) (hpre : pre.map (·.kind) = printfKinds)
  (hg : g.kind = .name firstHelper) (hp : p.kind = .symbol .lparen) (hc : Agree c c')
  (hlen : x.old.length ≤ x.new.length + 2)
  (hE : Phrase.read ((c ++ x.old).length + 1) (.binary 1) ⟨c ++ x.old, 0⟩ = .ok (E, ⟨x.old, 0⟩))

include hu hpre hc hlen hE

/-- The expression is read as an argument of the inner call, too. -/
theorem argument_eq : ∃ j, u.tokens.length + 1 = j + 7 ∧
    Phrase.read (j + 1) (.binary 1) ⟨c' ++ x.new, 2⟩ = .ok (E, ⟨x.new, 2⟩) := by
  have hpre' : pre.length = 6 := by
    rw [← List.length_map (f := (·.kind)), hpre]
    rfl
  have hcount : c.length = c'.length := by
    rw [← List.length_map (f := (·.kind)), hc, List.length_map]
  refine ⟨c'.length + x.new.length + 2, ?_, ?_⟩
  · simp only [hu, List.length_append, List.length_cons, hpre']
    omega
  · have hdepth : (c ++ x.old).length + 1 ≤ c'.length + x.new.length + 2 + 1 := by
      rw [List.length_append]
      omega
    have hexchange := Phrases.Exchange.binary (read_exchanges x hdepth) 1
    -- brackets open literals at both levels
    have hlevels : SameLevel 0 2 := .inr ⟨by decide, by decide⟩
    obtain ⟨z, hz, hread⟩ := hexchange.same (z := []) hc hlevels nofun hE
    rwa [hz.nil_inv] at hread

include hg hp

theorem fragment_printed
    (hnew : x.new.map (·.kind) = [.symbol .rparen, .symbol .rparen, .newline]) :
    u.fragment = .ok (printed E) := by
  obtain ⟨j, hj, hread⟩ := argument_eq hu hpre hc hlen hE
  obtain ⟨a, b, d, o, f, m, rfl, ha, hb, hd, ho, hf, hm⟩ := printf_tokens hpre
  obtain ⟨r₁, ts, hnew, hr₁, hts⟩ := List.map_eq_cons_iff.mp hnew
  obtain ⟨r₂, ts, rfl, hr₂, hts⟩ := List.map_eq_cons_iff.mp hts
  obtain ⟨e, rfl, he⟩ := List.map_eq_singleton_iff.mp hts
  have hend : headKind [e] = .newline := he
  rw [hnew] at hread hu
  have hcall : Phrase.read (j + 3) (.binary 1) ⟨g :: p :: (c' ++ [r₁, r₂, e]), 1⟩ =
      .ok (.call (.name firstHelper) [E] false, ⟨[r₂, e], 1⟩) :=
    expr_call hg hp hread hr₁ (by rw [show headKind [r₂, e] = _ from hr₂]; rfl)
  have hprint := expr_printf (l := 0) ha hb hd ho hf hm hcall hr₂ (by rw [hend]; rfl)
  have hsemi : ∀ t ∈ [e], t.kind.isSemicolon = true :=
    List.forall_mem_singleton.mpr (by rw [he]; rfl)
  refine fragment_of_expr hsemi (Nat.le_succ 1) ?_
  rw [hj, hu]
  exact hprint

theorem fragment_printed_error (hnew : (headKind x.new).isSemicolon = true) :
    ∃ e, u.fragment = .error e := by
  obtain ⟨j, hj, hread⟩ := argument_eq hu hpre hc hlen hE
  obtain ⟨a, b, d, o, f, m, rfl, ha, hb, hd, ho, hf, hm⟩ := printf_tokens hpre
  obtain ⟨e, hcall⟩ := expr_call_open (l := 1) hg hp hread hnew
  have hstart : startsSimple (headKind (g :: p :: (c' ++ x.new))) = true := by
    rw [show headKind (g :: _) = _ from hg]
    rfl
  have hprint := expr_printf_error (l := 0) ha hb hd ho hf hm hstart hcall
  have hstartPrint : startsSimple (headKind ([a, b, d, o, f, m] ++ g :: p :: (c' ++ x.new))) =
      true := by
    rw [show headKind ([a, b, d, o, f, m] ++ _) = _ from ha]
    rfl
  have hstmt := stmt_of_expr_error hstartPrint hprint
  cases hfragment : u.fragment with
  | error e => exact ⟨e, rfl⟩
  | ok st =>
    obtain ⟨-, s₁, s', hok, -⟩ := fragment_eq_ok.mp hfragment
    rw [phrases, hj, hu] at hok
    rw [hstmt] at hok
    cases hok

end Print

theorem map_kind_of_source {source : String} {ts : List Token} {ks : List Kind}
    (hts : Token.ofSource source = .ok ts) (h : ts.map (·.kind) = ks ++ [.eof]) :
    (ofTokens ts).tokens.map (·.kind) = ks := by
  obtain ⟨t, htokens, ht⟩ := exists_of_source hts
  rw [htokens, List.map_append, List.map_singleton, ht] at h
  exact List.append_cancel_right h

end TokenStream

/-! ## The text of the print -/

theorem parseFragment_eq {source : String} {ts : List Token}
    (hts : Token.ofSource source = .ok ts) : parseFragment source =
      (TokenStream.ofTokens ts).fragment.mapError ParseError.syntactic := by
  unfold parseFragment ofSource
  rw [hts]
  dsimp only
  cases (TokenStream.ofTokens ts).fragment <;> rfl

theorem not_endsStatement {k : Kind} (hk : k.isSemicolon = true) : k.endsStatement = false := by
  rcases isSemicolon_iff.mp hk with rfl | rfl <;> rfl

/-- An expression takes the tokens `front` of its text if a semicolon is inserted behind them, and
not all of them if none is. -/
theorem front_cases {taken zs front : List Kind} {ends : Bool}
    (htaken : ∃ k, taken.getLast? = some k ∧ k.endsStatement = true)
    (hzs : ∀ k ∈ zs, k.isSemicolon = true)
    (hends : ends = (front.getLast?.map (·.endsStatement)).getD false)
    (h : taken ++ zs = front ++ Piece.ended ends) :
    (ends = true ∧ taken = front ∧ zs = [.newline]) ∨
    (ends = false ∧ zs ≠ [] ∧ taken ++ zs = front) := by
  obtain ⟨k, hk, hke⟩ := htaken
  cases ends with
  | false =>
    refine .inr ⟨rfl, ?_, h.trans (List.append_nil _)⟩
    rintro rfl
    rw [List.append_nil, show Piece.ended false = [] from rfl, List.append_nil] at h
    rw [← h, hk] at hends
    exact Bool.false_ne_true (hends.trans hke)
  | true =>
    left
    rcases List.eq_nil_or_concat zs with rfl | ⟨zs', z, rfl⟩
    · rw [List.append_nil] at h
      rw [h, show Piece.ended true = [.newline] from rfl, List.getLast?_concat] at hk
      cases hk
      cases hke
    · rw [List.concat_eq_append, ← List.append_assoc] at h
      obtain ⟨hfront, hz⟩ := List.append_inj' h rfl
      cases hz
      rcases List.eq_nil_or_concat zs' with rfl | ⟨zs'', z', rfl⟩
      · exact ⟨rfl, (List.append_nil _).symm.trans hfront, rfl⟩
      · -- the last token of the text would be a semicolon
        rw [← hfront, List.concat_eq_append, ← List.append_assoc, List.getLast?_concat] at hends
        have hsemi := not_endsStatement (hzs z' (by simp))
        exact absurd (hsemi.symm.trans hends.symm) Bool.false_ne_true

theorem EndsStatement.last_kind {taken : List Token} (h : EndsStatement true taken) :
    ∃ k, (taken.map (·.kind)).getLast? = some k ∧ k.endsStatement = true := by
  unfold EndsStatement at h
  rw [List.getLast?_map]
  cases hl : taken.getLast? with
  | none =>
    rw [hl] at h
    cases h
  | some t =>
    rw [hl] at h
    exact ⟨t.kind, rfl, h⟩

/-- The tokens of the print of an expression with the tokens `front`. -/
theorem print_tokens {us : List Token} {front : List Kind}
    (hu : us.map (·.kind) = printfKinds ++ (.name firstHelper :: .symbol .lparen ::
      (front ++ [.symbol .rparen, .symbol .rparen, .newline]))) :
    ∃ pre g p inner last, us = pre ++ g :: p :: (inner ++ last) ∧
      pre.map (·.kind) = printfKinds ∧ g.kind = .name firstHelper ∧ p.kind = .symbol .lparen ∧
      inner.map (·.kind) = front ∧
      last.map (·.kind) = [.symbol .rparen, .symbol .rparen, .newline] := by
  obtain ⟨pre, rest, rfl, hpre, hrest⟩ := List.map_eq_append_iff.mp hu
  obtain ⟨g, rest, rfl, hg, hrest⟩ := List.map_eq_cons_iff.mp hrest
  obtain ⟨p, body, rfl, hp, hbody⟩ := List.map_eq_cons_iff.mp hrest
  obtain ⟨inner, last, rfl, hinner, hlast⟩ := List.map_eq_append_iff.mp hbody
  exact ⟨pre, g, p, inner, last, rfl, hpre, hg, hp, hinner, hlast⟩

theorem headKind_of_map {ts : List Token} {k : Kind} {ks : List Kind}
    (h : ts.map (·.kind) = k :: ks) : headKind ts = k := by
  obtain ⟨t, ts, rfl, ht, -⟩ := List.map_eq_cons_iff.mp h
  exact ht

/-- The print of an expression with the tokens `front`, if a semicolon is inserted behind them, and
if none is. -/
theorem TokenStream.fragment_of_print {s u : TokenStream} (hs : ∀ t ∈ s.tokens, t.kind ≠ .eof)
    {x : Expr} (hx : s.fragment = .ok (.simple (.expr x))) {front : List Kind} {ends : Bool}
    (hfront : s.tokens.map (·.kind) = front ++ Piece.ended ends)
    (hends : ends = (front.getLast?.map (·.endsStatement)).getD false)
    (hu : u.tokens.map (·.kind) = printfKinds ++ (.name firstHelper :: .symbol .lparen ::
      (front ++ [.symbol .rparen, .symbol .rparen, .newline]))) :
    (ends = true → u.fragment = .ok (printed x)) ∧
    (ends = false → ∃ e, u.fragment = .error e) := by
  obtain ⟨taken, zs, htokens, htaken, hsemi, hlen, hread⟩ := expression_of_fragment hs hx
  rw [htokens] at hread hfront
  rw [List.map_append] at hfront
  obtain ⟨pre, g, p, inner, last, hu, hpre, hg, hp, hinner, hlast⟩ := print_tokens hu
  have hkinds : ∀ k ∈ zs.map (·.kind), k.isSemicolon = true := by
    intro k hk
    obtain ⟨t, ht, rfl⟩ := List.mem_map.mp hk
    exact hsemi t ht
  rcases front_cases htaken.last_kind hkinds hends hfront with
    ⟨rfl, htook, hzs⟩ | ⟨rfl, hne, hall⟩
  · -- the closing parentheses stand where the semicolon was inserted
    refine ⟨fun _ => ?_, nofun⟩
    let x₀ : Exchange :=
      { old := zs
        new := last
        semicolon := by rw [headKind_of_map hzs]; rfl
        stop := by rw [headKind_of_map hlast]; rfl }
    have hlen : x₀.old.length ≤ x₀.new.length + 2 := hlen.trans (Nat.le_add_left 2 _)
    exact fragment_printed hu hpre hg hp (htook.trans hinner.symm) hlen hread hlast
  · -- the text has a semicolon of its own, which the call finds in front of its parenthesis
    refine ⟨nofun, fun _ => ?_⟩
    obtain ⟨c', z', rfl, hc', hz'⟩ := List.map_eq_append_iff.mp (hinner.trans hall.symm)
    obtain ⟨k, ks, hks⟩ := List.exists_cons_of_ne_nil hne
    have hk : k.isSemicolon = true := hkinds k (by rw [hks]; exact .head _)
    have hnew : (headKind (z' ++ last)).isSemicolon = true := by
      rw [headKind_of_map (k := k) (by rw [List.map_append, hz', hks]; rfl)]
      exact hk
    let x₀ : Exchange :=
      { old := zs
        new := z' ++ last
        semicolon := by rw [headKind_of_map hks]; exact hk
        stop := isStop_of_isSemicolon hnew }
    rw [List.append_assoc] at hu
    have hlen : x₀.old.length ≤ x₀.new.length + 2 := hlen.trans (Nat.le_add_left 2 _)
    exact fragment_printed_error hu hpre hg hp hc'.symm hlen hread hnew

end Syntax

open Syntax

namespace Shape

theorem ofStmt_eq_expression {st : Stmt} {u : ExpressionUse} (h : ofStmt st = .expression u) :
    ∃ x, st = .simple (.expr x) ∧ useOf x = u := by
  unfold ofStmt at h
  split at h
  all_goals cases h
  exact ⟨_, rfl, rfl⟩

variable {source : String} {ps : List Piece} {ts : List Token}

/-- The print of a text that ends in a line comment has more opening than closing brackets. -/
theorem print_comment (hts : Token.ofSource source = .ok ts) {x : Stmt}
    (hx : (TokenStream.ofTokens ts).fragment = .ok x) {qs : List Piece}
    (hqs : Piece.cut (Echo.expression source).toList = .ok qs)
    (hkinds : Piece.kinds false qs = Piece.front false Echo.opening ++ ts.map (·.kind)) :
    ∃ e, parseFragment (Echo.expression source) = .error e := by
  cases hparse : parseFragment (Echo.expression source) with
  | error e => exact ⟨e, rfl⟩
  | ok y =>
    exfalso
    obtain ⟨us, hus, hy⟩ := ofSource_eq_ok hparse
    have hnested := nested_of_source hus (.inl ⟨y, hy⟩)
    obtain ⟨qs', hqs', hus'⟩ := Token.map_kind_ofSource hus
    cases hqs.symm.trans hqs'
    rw [hus', hkinds] at hnested
    have hinner := (nested_of_source hts (.inl ⟨x, hx⟩)).depth_eq_zero
    have hzero := hnested.depth_eq_zero
    rw [List.map_append, List.sum_append, hinner] at hzero
    cases hzero

theorem print_inline (hts : Token.ofSource source = .ok ts) {x : Expr}
    (hx : (TokenStream.ofTokens ts).fragment = .ok (.simple (.expr x)))
    (hkinds : ts.map (·.kind) = Piece.kinds false ps) {qs : List Piece}
    (hqs : Piece.cut (Echo.expression source).toList = .ok qs)
    (hprint : Piece.kinds false qs = Piece.front false Echo.opening ++
      (Piece.front false ps ++ [.symbol .rparen, .symbol .rparen, .newline, .eof])) :
    (Piece.endsBehind false ps = true →
      parseFragment (Echo.expression source) = .ok (printed x)) ∧
    (Piece.endsBehind false ps = false →
      ∃ e, parseFragment (Echo.expression source) = .error e) := by
  have hus : Token.ofSource (Echo.expression source) = .ok (Token.place {} false qs) :=
    Token.ofSource_eq_ok.mpr ⟨qs, hqs, rfl⟩
  have hends := Piece.endsBehind_eq false ps
  have hfront : (TokenStream.ofTokens ts).tokens.map (·.kind) =
      Piece.front false ps ++ Piece.ended (Piece.endsBehind false ps) := by
    refine TokenStream.map_kind_of_source hts ?_
    rw [hkinds, Piece.kinds_eq_front, List.append_assoc]
  have hu : (TokenStream.ofTokens (Token.place {} false qs)).tokens.map (·.kind) =
      printfKinds ++ (.name firstHelper :: .symbol .lparen ::
        (Piece.front false ps ++ [.symbol .rparen, .symbol .rparen, .newline])) := by
    refine TokenStream.map_kind_of_source hus ?_
    have hopening : Piece.front false Echo.opening =
        printfKinds ++ [.name firstHelper, .symbol .lparen] := rfl
    rw [Token.kinds_place, hprint, hopening]
    simp only [List.append_assoc, List.cons_append, List.nil_append]
  have hfragment := TokenStream.fragment_of_print (fun t => TokenStream.ne_eof_of_ofTokens) hx
    hfront hends hu
  rw [parseFragment_eq hus]
  refine ⟨fun hok => ?_, fun herror => ?_⟩
  · rw [hfragment.1 hok]
    rfl
  · obtain ⟨e, he⟩ := hfragment.2 herror
    rw [he]
    exact ⟨_, rfl⟩

/-- The print of a bare expression is a call with that expression as its argument if the closing
parentheses come behind the last token of its text, on the same line; otherwise it is rejected. -/
theorem print_of_expression {u : ExpressionUse} (h : ofSource source = .ok (.expression u)) :
    ∃ x, parseFragment source = .ok (.simple (.expr x)) ∧ useOf x = u ∧
      (Echo.fits (Text.trim source) = true →
        parseFragment (Echo.expression source) = .ok (printed x)) ∧
      (Echo.fits (Text.trim source) = false →
        ∃ e, parseFragment (Echo.expression source) = .error e) := by
  unfold ofSource at h
  split at h
  · obtain ⟨specs, -, himports⟩ := ofImport_eq_ok.mp h
    cases himports
  obtain ⟨st, hparse, hshape⟩ := ofStatement_eq_ok.mp h
  obtain ⟨x, rfl, hu⟩ := ofStmt_eq_expression hshape.symm
  refine ⟨x, hparse, hu, ?_⟩
  obtain ⟨ts, hts, hx⟩ := ofSource_eq_ok hparse
  obtain ⟨qs, hqs, hkinds⟩ := Token.map_kind_ofSource hts
  obtain ⟨ps, hps, htrim⟩ := Token.cut_trim hqs
  have hfits : Echo.fits (Text.trim source) =
      (Piece.endsBehind false ps && !ps.getLast?.any Piece.isLineComment) := by
    rw [Echo.fits, hps]
  rw [hfits]
  cases hlast : ps.getLast?.any Piece.isLineComment with
  | true =>
    obtain ⟨us, hus, hprint⟩ := Echo.kinds_comment hps hlast
    rw [← htrim, ← hkinds] at hprint
    rw [Bool.not_true, Bool.and_false]
    exact ⟨nofun, fun _ => print_comment hts hx hus hprint⟩
  | false =>
    obtain ⟨us, hus, hprint⟩ := Echo.kinds_expression hps hlast
    rw [Bool.not_false, Bool.and_true]
    exact print_inline hts hx (hkinds.trans htrim) hus hprint

theorem print_of_expression_sum :
    ofSource "a + b" = .ok (.expression .value) ∧ Echo.fits (Text.trim "a + b") = true ∧
      ∃ x, parseFragment "a + b" = .ok (.simple (.expr x)) ∧
        parseFragment (Echo.expression "a + b") = .ok (printed x) := by
  have hshape : ofSource "a + b" = .ok (.expression .value) := by decide +kernel
  have hfits : Echo.fits (Text.trim "a + b") = true := by decide +kernel
  obtain ⟨x, hx, -, hprint, -⟩ := print_of_expression hshape
  exact ⟨hshape, hfits, x, hx, hprint hfits⟩

/-- A comment behind a value takes the closing parentheses. -/
theorem print_rejected_comment :
    ofSource "x // note" = .ok (.expression .value) ∧
      ∀ st, parseFragment (Echo.expression "x // note") ≠ .ok st := by
  refine ⟨by decide +kernel, fun st hst => ?_⟩
  have hrejected : (parseFragment (Echo.expression "x // note")).isOk = false := by decide +kernel
  rw [hst] at hrejected
  cases hrejected

example : Echo.fits "x /* note */" = true ∧ Echo.fits "x;" = false ∧
    Echo.fits "x /*\n*/" = false := by
  decide +kernel

end Shape

end GoRepl
