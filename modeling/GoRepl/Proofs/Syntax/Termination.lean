import GoRepl.Proofs.Syntax.Calls
import GoRepl.Proofs.Syntax.ProgressOfPhrases
import Mathlib.Data.List.TakeWhile

/-! # Parsing ends

The bound on the depth of the phrases is never used up, so there might as well be none.  Whatever
tokens a parser is given, it goes forward in them, never leaves them, reads each phrase inside
another further behind, and ends with a tree or an error.

* `Phrase.parse`, `ImportSpec.parseAll`: the readers without a bound, and the equations that they
  solve.
* `Part`: the parts of the grammar, with those that take a token whenever they succeed.
* `endMarked`, `EndsWithin`: the tokens of a parser, and runs between positions in them.
* `Calls.position`: where the phrases inside of another are read.
* `Answers`, `parsing_terminates`: the entry points.
-/

namespace GoRepl.Syntax

open Read Grammar

variable {α : Type} {z : Trailer} {n : Nat} {fresh strict : Bool} {ts us : List Token}

/-! ## Without a bound -/

/-- The reader of a phrase, however deep others nest in it. -/
def Phrase.parse : Phrases := fun ph s => Phrase.read (s.tokens.length + 1) ph s

/-- The lines of an import group, however many there are. -/
def ImportSpec.parseAll : Read (List ImportSpec) := fun s => readAll (s.tokens.length + 1) s

/-- Nothing behind the tokens. -/
def Trailer.none : Trailer := ⟨[], rfl⟩

theorem Trailer.behind_none (r : Except ReadFault (α × ReadState)) : Trailer.none.behind r = r := by
  rcases r with f | ⟨a, s⟩
  · simp only [behind, Trailer.none, List.append_nil]
  · simp only [behind, Trailer.none, List.append_nil]

/-- Two readers do the same on `ts` if nothing stands behind. -/
theorem Guarded.eq {p q : Read α} (h : Guarded .none n fresh strict ts p q)
    (hlen : ts.length < n + fresh.toNat) (l : Int) : q ⟨ts, l⟩ = p ⟨ts, l⟩ := by
  have hsame := (h hlen l).1
  rwa [Trailer.behind_none, Trailer.none, List.append_nil] at hsame

theorem read_guard_parse {depth : Nat} (hd : n ≤ depth) :
    Phrases.Guard z n (Phrase.read depth) Phrase.parse := by
  intro α ph ts hlen l
  have hfew : ts.length + 1 ≤ depth := Nat.le_trans hlen hd
  have hmany : ts.length + 1 ≤ (ts ++ z.tokens).length + 1 :=
    Nat.succ_le_succ (List.prefix_append ts z.tokens).length_le
  exact read_guard hfew hmany ph ts (Nat.lt_succ_self _) l

theorem parse_guard : Phrases.Guard z n Phrase.parse Phrase.parse := fun ph ts _ l =>
  read_guard_parse (Nat.le_refl (ts.length + 1)) ph ts (Nat.lt_succ_self _) l

theorem parse_eq_step (ph : Phrase α) : Phrase.parse ph = ph.step Phrase.parse := by
  funext ⟨ts, l⟩
  have hstep := step_guard (z := .none) (read_guard_parse (Nat.le_refl ts.length)) ph ts
  exact (hstep.eq (Nat.lt_succ_self _) l).symm

/-- The equations of the grammar have one solution. -/
theorem solves_iff (rec : Phrases) : (∀ {α : Type} (ph : Phrase α), rec ph = ph.step rec) ↔
    ∀ {α : Type} (ph : Phrase α), rec ph = Phrase.parse ph := by
  constructor
  · intro hrec
    -- on fewer than `n` tokens a solution agrees with the bounded readers, whatever it does on more
    have hguard : ∀ n depth, n ≤ depth → Phrases.Guard .none n (Phrase.read depth) rec := by
      intro n
      induction n with
      | zero => exact fun _ _ _ _ _ hlen => absurd hlen (Nat.not_lt_zero _)
      | succ n ih =>
        intro depth hd α ph ts
        obtain ⟨depth, rfl⟩ := Nat.exists_eq_add_one_of_ne_zero (Nat.ne_zero_of_lt hd)
        change Guarded _ _ _ _ _ _ (rec ph)
        rw [hrec ph]
        exact step_guard (ih depth (Nat.le_of_succ_le_succ hd)) ph ts
    intro α ph
    funext ⟨ts, l⟩
    exact (hguard _ _ (Nat.le_refl (ts.length + 1)) ph ts).eq (Nat.lt_succ_self _) l
  · intro hrec
    have hparse : @rec = @Phrase.parse := by
      funext α ph
      exact hrec ph
    intro α ph
    rw [hparse]
    exact parse_eq_step ph

namespace ImportSpec

theorem readAll_guarded_parseAll {bound : Nat} (hb : n ≤ bound) :
    Guarded z n false false ts (readAll bound) parseAll := by
  intro hlen l
  have hfew : ts.length + 1 ≤ bound := Nat.le_trans hlen hb
  have hmany : ts.length + 1 ≤ (ts ++ z.tokens).length + 1 :=
    Nat.succ_le_succ (List.prefix_append ts z.tokens).length_le
  exact readAll_guarded hfew hmany (Nat.lt_succ_self _) l

theorem parseAll_guarded : Guarded z n false false ts parseAll parseAll := fun _ l =>
  readAll_guarded_parseAll (Nat.le_refl (ts.length + 1)) (Nat.lt_succ_self _) l

theorem parseAll_eq_lines : parseAll = lines parseAll := by
  funext ⟨ts, l⟩
  have hlines : Guarded .none ts.length true false ts (lines (readAll ts.length))
      (lines parseAll) :=
    lines_guarded fun _ => readAll_guarded_parseAll (Nat.le_refl _)
  exact (hlines.eq (Nat.lt_succ_self _) l).symm

end ImportSpec

/-! ## The parts of the grammar -/

/-- The readers of the parts of the grammar, over the readers `rec` of phrases and at the tokens
`ts`, and whether they take a token whenever they succeed. -/
inductive Part (rec : Phrases) (ts : List Token) : {α : Type} → Bool → Read α → Prop
  | phrase {α : Type} (ph : Phrase α) : Part @rec ts ph.takes (ph.step rec)
  | expr : Part @rec ts true (expr rec)
  | exprs : Part @rec ts true (exprs rec)
  | primary : Part @rec ts true (primary rec)
  | operand : Part @rec ts true (operand rec)
  | funcOperand : Part @rec ts true (funcOperand rec)
  | selectorOrAssertion (x : Expr) : Part @rec ts true (selectorOrAssertion rec x)
  | indexOrSlice (x : Expr) : Part @rec ts true (indexOrSlice rec x)
  | call (fn : Expr) : Part @rec ts true (call rec fn)
  | composite (type? : Option Expr) : Part @rec ts true (composite rec type?)
  | elem : Part @rec ts true (elem rec)
  | names : Part @rec ts true (names rec)
  | types : Part @rec ts true (types rec)
  | paramList : Part @rec ts true (paramList rec)
  | signature : Part @rec ts true (signature rec)
  | structType : Part @rec ts true (structType rec)
  | interfaceType : Part @rec ts true (interfaceType rec)
  | field : Part @rec ts true (field rec)
  | interfaceItem : Part @rec ts true (interfaceItem rec)
  | unionTerm : Part @rec ts true (unionTerm rec)
  | arrayTail : Part @rec ts true (arrayTail rec)
  | simple : Part @rec ts true (simple rec)
  | simpleOrLabeled : Part @rec ts true (simpleOrLabeled rec)
  | block : Part @rec ts true (block rec)
  | switch : Part @rec ts true (switch rec)
  | caseClause : Part @rec ts true (caseClause rec)
  | select : Part @rec ts true (select rec)
  | commClause : Part @rec ts true (commClause rec)
  /-- The header may be empty. -/
  | loopHeader : Part @rec ts false (loopHeader rec)
  | loop : Part @rec ts true (loop rec)
  | valueSpec (kw : ValueKeyword) (first : Bool) : Part @rec ts true (valueSpec rec kw first)
  | typeSpec : Part @rec ts true (typeSpec rec)
  /-- A declaration is read from its keyword on. -/
  | valueDecl (kw : ValueKeyword) (more : headKind ts ≠ .eof) :
      Part @rec ts true (valueDecl rec kw)
  | typeDecl (more : headKind ts ≠ .eof) : Part @rec ts true (typeDecl rec)
  /-- A statement is empty only in front of a closing brace and at the end. -/
  | stmt (brace : headKind ts ≠ .symbol .rbrace) (more : headKind ts ≠ .eof) :
      Part @rec ts true (stmt rec)
  | importSpec : Part @rec ts true ImportSpec.read
  | imports : Part @rec ts false ImportSpec.parseAll
  | statementEnd : Part @rec ts false statementEnd
  | fragmentEnd : Part @rec ts false fragmentEnd

theorem Part.guarded {rec : Phrases} {p : Read α} (h : Part rec ts strict p)
    (hrec : Phrases.Guard z n rec rec) (hk : headKind ts = headKind us) :
    Guarded z n false strict us p p := by
  cases h with
  | phrase ph => exact step_guarded hrec ph
  | expr => exact expr_guarded hrec
  | exprs => exact exprs_guarded hrec
  | primary => exact primary_guarded hrec
  | operand => exact operand_guarded hrec
  | funcOperand => exact funcOperand_guarded hrec
  | selectorOrAssertion x => exact selectorOrAssertion_guarded hrec x
  | indexOrSlice x => exact indexOrSlice_guarded hrec x
  | call fn => exact call_guarded hrec fn
  | composite type? => exact composite_guarded hrec type?
  | elem => exact elem_guarded hrec
  | names => exact names_guarded hrec
  | types => exact types_guarded hrec
  | paramList => exact paramList_guarded hrec
  | signature => exact signature_guarded hrec
  | structType => exact structType_guarded hrec
  | interfaceType => exact interfaceType_guarded hrec
  | field => exact field_guarded hrec
  | interfaceItem => exact interfaceItem_guarded hrec
  | unionTerm => exact unionTerm_guarded hrec
  | arrayTail => exact arrayTail_guarded hrec
  | simple => exact simple_guarded hrec
  | simpleOrLabeled => exact simpleOrLabeled_guarded hrec
  | block => exact block_guarded hrec
  | switch => exact switch_guarded hrec
  | caseClause => exact caseClause_guarded hrec
  | select => exact select_guarded hrec
  | commClause => exact commClause_guarded hrec
  | loopHeader => exact loopHeader_guarded hrec
  | loop => exact loop_guarded hrec
  | valueSpec kw first => exact valueSpec_guarded hrec kw first
  | typeSpec => exact typeSpec_guarded hrec
  | valueDecl kw more => exact valueDecl_guarded hrec kw (beq_eq_false_iff_ne.mpr (hk ▸ more))
  | typeDecl more => exact typeDecl_guarded hrec (beq_eq_false_iff_ne.mpr (hk ▸ more))
  | stmt brace more => exact stmt_guarded hrec fun _ => ⟨hk ▸ brace, hk ▸ more⟩
  | importSpec => exact ImportSpec.read_guarded
  | imports => exact ImportSpec.parseAll_guarded
  | statementEnd => exact .statementEnd
  | fragmentEnd => exact .fragmentEnd

/-! ## Positions -/

/-- The tokens of a parser: behind a list that does not end in an end mark, one is put. -/
def endMarked (ts : List Token) : List Token :=
  match ts.getLast? with
  | some t => if t.kind = .eof then ts else ts ++ [⟨.eof, t.span⟩]
  | none => [⟨.eof, Span.at {}⟩]

/-- A run from position `i` of the tokens `v` ends at one of their positions, which is not in front
of `i`; with `strict` a successful one ends behind it.  It has not used up a bound. -/
def EndsWithin (v : List Token) (i : Nat) (strict : Bool) :
    Except ReadFault (α × ReadState) → Prop
  | .ok (_, s) => ∃ j, i + strict.toNat ≤ j ∧ j < v.length ∧ s.tokens = v.drop j
  | .error f => f.fault ≠ .tooDeep ∧ ∃ j, i ≤ j ∧ j < v.length ∧ f.rest = v.drop j

variable {v xs : List Token} {i : Nat} {l : Int}

/-- An end of the tokens in front of the trailer is at a position. -/
theorem exists_position (hz : z.tokens ≠ []) (hv : v.drop i = us ++ z.tokens) (h : xs <:+ us)
    (k : Nat) (hk : xs.length + k ≤ us.length) :
    ∃ j, i + k ≤ j ∧ j < v.length ∧ xs ++ z.tokens = v.drop j := by
  obtain ⟨taken, rfl⟩ := h
  have hlen := congrArg List.length hv
  have hpos := List.length_pos_iff.mpr hz
  simp only [List.length_drop, List.length_append] at hlen hk
  refine ⟨i + taken.length, by omega, by omega, ?_⟩
  rw [← List.drop_drop, hv, List.append_assoc, List.drop_left]

/-- From every position on there is an end mark: the last token. -/
theorem exists_last (hi : i < (endMarked ts).length) :
    ∃ (us : List Token) (z : Trailer), z.tokens ≠ [] ∧ (endMarked ts).drop i = us ++ z.tokens := by
  have hlast : ∃ w e, endMarked ts = w ++ [e] ∧ e.kind = .eof := by
    unfold endMarked
    split
    · rename_i t ht
      split
      · rename_i he
        obtain ⟨w, hw⟩ := List.getLast?_eq_some_iff.mp ht
        exact ⟨w, t, hw, he⟩
      · exact ⟨ts, _, rfl, rfl⟩
    · exact ⟨[], _, rfl, rfl⟩
  obtain ⟨w, e, hv, he⟩ := hlast
  rw [hv] at hi ⊢
  rw [List.length_append, List.length_singleton] at hi
  exact ⟨w.drop i, ⟨[e], he⟩, List.cons_ne_nil e [],
    List.drop_append_of_le_length (Nat.le_of_lt_succ hi)⟩

theorem Guarded.endsWithin {p : Read α} (h : Guarded z n fresh strict us p p)
    (hlen : us.length < n + fresh.toNat) (hz : z.tokens ≠ []) (hv : v.drop i = us ++ z.tokens)
    (l : Int) : EndsWithin v i strict (p ⟨v.drop i, l⟩) := by
  obtain ⟨hsame, hproceeds⟩ := h hlen l
  rw [hv, hsame]
  cases hr : p ⟨us, l⟩ with
  | error f =>
    rw [hr] at hproceeds
    exact ⟨hproceeds.2, exists_position hz hv hproceeds.1 0 hproceeds.1.length_le⟩
  | ok x =>
    rw [hr] at hproceeds
    exact exists_position hz hv hproceeds.1 _ hproceeds.2

/-! ### Calls -/

section Calls

variable {rec rec' : Phrases} {c : Call}

/-- A fault put at the front of one call changes nothing about going forward. -/
theorem advances_of_answer {f : SyntaxFault} (hcall : rec'.answer c = .error ⟨f, c.state.tokens⟩)
    (hsame : ∀ c', c' ≠ c → rec'.answer c' = rec.answer c')
    (h : ∀ {β : Type} (ph : Phrase β), Advances (rec ph)) (ph : Phrase α) : Advances (rec' ph) := by
  have hread (s : ReadState) : rec' ph s = .error ⟨f, s.tokens⟩ ∨ rec' ph s = rec ph s := by
    by_cases hc : (⟨ph, s⟩ : Call) = c
    · subst hc
      exact .inl hcall
    · exact .inr (hsame ⟨ph, s⟩ hc)
  constructor
  · intro s s' a hs
    rcases hread s with he | heq
    · rw [he] at hs
      cases hs
    · exact (h ph).leaves (heq ▸ hs)
  · intro s e hs
    rcases hread s with he | heq
    · rw [he] at hs
      cases hs
      exact List.suffix_refl _
    · exact (h ph).stops (heq ▸ hs)

variable (hrec : Phrases.Guard z us.length rec rec)

include hrec

theorem Calls.exists_shorter {ph : Phrase α}
    (h : Calls (fun rec => ph.step rec) rec ⟨us ++ z.tokens, l⟩ c) :
    ∃ ws, c.state.tokens = ws ++ z.tokens ∧ ws.length < us.length := by
  refine Classical.byContradiction fun hno => ?_
  -- the run does not depend on another call, so it cannot stop with any two faults of it
  have hstops (e : ReadFault) : z.behind (ph.step rec ⟨us, l⟩) = .error e := by
    obtain ⟨rec', -, hsame, hrun⟩ := h e
    have hguard : Phrases.Guard z us.length rec rec' := by
      intro β ph' ts hlen l'
      have hne : (⟨ph', ⟨ts ++ z.tokens, l'⟩⟩ : Call) ≠ c := by
        rintro rfl
        exact hno ⟨ts, rfl, hlen⟩
      obtain ⟨hread, hproceeds⟩ := hrec ph' ts hlen l'
      exact ⟨(hsame _ hne).trans hread, hproceeds⟩
    have hstep := (step_guard hguard ph us (Nat.lt_succ_self _) l).1
    exact hstep.symm.trans hrun
  have htwo := (hstops ⟨.trailing, []⟩).symm.trans (hstops ⟨.tooDeep, []⟩)
  cases htwo

/-- A phrase inside of another one is read further behind, and in front of the trailer. -/
theorem Calls.exists_tokens {ph : Phrase α}
    (h : Calls (fun rec => ph.step rec) rec ⟨us ++ z.tokens, l⟩ c)
    (hforward : ∀ {β : Type} (ph : Phrase β), Advances (rec ph)) :
    ∃ ws, c.state.tokens = ws ++ z.tokens ∧ ws <:+ us ∧ ws.length < us.length := by
  obtain ⟨ws, htokens, hlen⟩ := h.exists_shorter hrec
  obtain ⟨rec', hcall, hsame, hrun⟩ := h ⟨.tooDeep, c.state.tokens⟩
  have hsuffix := ((step_composed ph).advances (advances_of_answer hcall hsame hforward)).stops hrun
  change c.state.tokens <:+ us ++ z.tokens at hsuffix
  rw [htokens] at hsuffix
  obtain ⟨x, hx⟩ := hsuffix
  rw [← List.append_assoc] at hx
  exact ⟨ws, htokens, ⟨x, List.append_cancel_right hx⟩, hlen⟩

end Calls

theorem parse_advance (ph : Phrase α) : Advances (Phrase.parse ph) where
  leaves h := (read_advance _ ph).leaves h
  stops h := (read_advance _ ph).stops h

/-- A phrase inside of another one is read at a position behind it. -/
theorem Calls.position {ph : Phrase α} {c : Call} (hz : z.tokens ≠ [])
    (hv : v.drop i = us ++ z.tokens)
    (h : Calls (fun rec => ph.step rec) Phrase.parse ⟨v.drop i, l⟩ c) :
    ∃ j, i < j ∧ j < v.length ∧ c.state.tokens = v.drop j := by
  rw [hv] at h
  obtain ⟨ws, htokens, hsuffix, hlen⟩ := h.exists_tokens parse_guard parse_advance
  rw [htokens]
  exact exists_position hz hv hsuffix 1 hlen

/-- The bound on the depth of a call is not used up. -/
theorem TokenStream.Called.length_lt {s : TokenStream} {depth : Nat} {c : Call}
    (h : s.Called depth c) : c.state.tokens.length < depth := by
  induction h with
  | fragment => exact Nat.lt_succ_self _
  | expression => exact Nat.lt_succ_self _
  | @inner depth c c' outer calls ih =>
    have hd : c.state.tokens.length ≤ depth := Nat.le_of_lt_succ ih
    have hcalls : Calls (fun rec => c.phrase.step rec) (Phrase.read depth)
        ⟨c.state.tokens ++ Trailer.none.tokens, c.state.level⟩ c' := by
      rw [Trailer.none, List.append_nil]
      exact calls
    obtain ⟨ws, htokens, hlen⟩ := hcalls.exists_shorter (read_guard hd hd)
    rw [htokens, Trailer.none, List.append_nil]
    exact Nat.lt_of_lt_of_le hlen hd

/-! ## The entry points -/

/-- One statement and the end. -/
def fragmentOf (rec : Phrases) : Read Stmt := do
  if ← atSymbol .rbrace then Read.unexpected .statement
  TokenStream.whole (rec .stmt)

/-- One expression and the end. -/
def expressionOf (rec : Phrases) : Read Expr := TokenStream.whole (rec (.binary 1))

/-- One import declaration, the lines of a group in it being read by `lines`, and the end. -/
def importsOf (lines : Read (List ImportSpec)) : Read (List ImportSpec) :=
  TokenStream.whole do
    expectKeyword .importKw
    group lines ImportSpec.read

theorem whole_guarded {p q : Read α} (h : Guarded z n fresh false ts p q) :
    Guarded z n fresh false ts (TokenStream.whole p) (TokenStream.whole q) := by
  unfold TokenStream.whole
  exact .behind h fun a _ => .behind .fragmentEnd fun _ _ => .of_pure _

theorem fragmentOf_guarded {rec rec' : Phrases} (h : Phrases.Guard z n rec rec') :
    Guarded z n false false ts (fragmentOf rec) (fragmentOf rec') := by
  unfold fragmentOf
  exact .atSymbol (fun _ => .unexpected_bind _ _ _) (whole_guarded (h .stmt _))

theorem importsOf_guarded {lines lines' : Read (List ImportSpec)}
    (h : ∀ zs, Guarded z n false false zs lines lines') :
    Guarded z n fresh false ts (importsOf lines) (importsOf lines') := by
  unfold importsOf
  refine whole_guarded (.bind (.expectKeyword _) fun _ _ => ?_)
  exact (group_guarded h fun _ => ImportSpec.read_guarded).lower

/-- What the reader `p` gives for the tokens `v`: a tree, or an error at one of the tokens, which is
not that a bound is used up. -/
def Answers (v : List Token) (p : Read α) (r : Except SyntaxError α) : Prop :=
  match p { tokens := v } with
  | .ok (a, s) => r = .ok a ∧ ∃ j < v.length, s.tokens = v.drop j
  | .error f => f.fault ≠ .tooDeep ∧ ∃ j, ∃ h : j < v.length, f.rest = v.drop j ∧
      r = .error ⟨f.fault, v[j].kind, v[j].span.line, v[j].span.col⟩

/-- A stream is cut off in front of the first end mark. -/
theorem exists_trailer (ts : List Token) : ∃ e zs, e.kind = .eof ∧
    endMarked ts = (TokenStream.ofTokens ts).tokens ++ e :: zs ∧
    (TokenStream.ofTokens ts).finish = e.span := by
  unfold endMarked TokenStream.ofTokens
  cases hfind : ts.find? (·.kind = .eof) with
  | some e =>
    obtain ⟨he, front, zs, rfl, hfront⟩ := List.find?_eq_some_iff_append.mp hfind
    have he' : e.kind = .eof := of_decide_eq_true he
    have htake : (front ++ e :: zs).takeWhile (·.kind ≠ .eof) = front := by
      rw [List.takeWhile_append_of_pos, List.takeWhile_cons_of_neg, List.append_nil]
      · simpa using he'
      · simpa using hfront
    rw [htake]
    split
    · split
      · exact ⟨e, zs, he', rfl, rfl⟩
      · exact ⟨e, zs ++ [_], he', by rw [List.append_assoc, List.cons_append], rfl⟩
    · rename_i hnone
      exact absurd (List.getLast?_eq_none_iff.mp hnone)
        (List.append_ne_nil_of_right_ne_nil front (List.cons_ne_nil e zs))
  | none =>
    have hall : ∀ t ∈ ts, t.kind ≠ .eof := by simpa using List.find?_eq_none.mp hfind
    have htake : ts.takeWhile (·.kind ≠ .eof) = ts := by
      rw [List.takeWhile_eq_self_iff]
      simpa using hall
    rw [htake]
    cases hlast : ts.getLast? with
    | some t =>
      have ht : t.kind ≠ .eof := hall t (List.mem_of_getLast? hlast)
      dsimp only
      rw [if_neg ht]
      exact ⟨_, [], rfl, rfl, rfl⟩
    | none =>
      rw [List.getLast?_eq_none_iff.mp hlast]
      exact ⟨_, [], rfl, rfl, rfl⟩

theorem TokenStream.error_of_head {s : TokenStream} {f : ReadFault} {e t : Token}
    {zs rest : List Token} (he : e.kind = .eof) (hfinish : s.finish = e.span)
    (h : f.rest ++ e :: zs = t :: rest) :
    s.error f = ⟨f.fault, t.kind, t.span.line, t.span.col⟩ := by
  unfold error
  cases hrest : f.rest with
  | nil =>
    rw [hrest] at h
    cases h
    rw [hfinish, he]
  | cons u us =>
    rw [hrest] at h
    cases h
    rfl

/-- A reader gives the same for the stream and for all the tokens. -/
theorem Guarded.answers {p q : Read α} (h : ∀ z : Trailer, Guarded z n fresh false
      (TokenStream.ofTokens ts).tokens p q)
    (hlen : (TokenStream.ofTokens ts).tokens.length < n + fresh.toNat) :
    Answers (endMarked ts) q ((TokenStream.ofTokens ts).run p) := by
  obtain ⟨e, zs, he, hv, hfinish⟩ := exists_trailer ts
  obtain ⟨hsame, hproceeds⟩ := h ⟨e :: zs, he⟩ hlen 0
  generalize endMarked ts = v at hv ⊢
  generalize TokenStream.ofTokens ts = s at *
  have hv' : v.drop 0 = s.tokens ++ e :: zs := hv
  have hne : e :: zs ≠ [] := List.cons_ne_nil e zs
  unfold Answers TokenStream.run
  rw [hv, hsame, ← hv]
  cases hr : p ⟨s.tokens, 0⟩ with
  | ok x =>
    rw [hr] at hproceeds
    obtain ⟨j, -, hj, hdrop⟩ :=
      exists_position (z := ⟨e :: zs, he⟩) hne hv' hproceeds.1 0 hproceeds.1.length_le
    exact ⟨rfl, j, hj, hdrop⟩
  | error f =>
    rw [hr] at hproceeds
    obtain ⟨j, -, hj, hdrop⟩ :=
      exists_position (z := ⟨e :: zs, he⟩) hne hv' hproceeds.1 0 hproceeds.1.length_le
    refine ⟨hproceeds.2, j, hj, hdrop, ?_⟩
    rw [List.drop_eq_getElem_cons hj] at hdrop
    exact congrArg Except.error (TokenStream.error_of_head he hfinish hdrop)

/-- Parsing the tokens `ts` goes forward in them and ends. -/
structure Terminates (ts : List Token) : Prop where
  /-- A part that is read at a position ends at one, behind it if the part takes a token. -/
  parts {α : Type} {strict : Bool} {p : Read α} {i : Nat} (hi : i < (endMarked ts).length)
    (part : Part Phrase.parse ((endMarked ts).drop i) strict p) (l : Int) :
    EndsWithin (endMarked ts) i strict (p ⟨(endMarked ts).drop i, l⟩)
  /-- A phrase inside of another one is read behind the position of that one. -/
  calls {α : Type} {ph : Phrase α} {i : Nat} {l : Int} {c : Call}
    (hi : i < (endMarked ts).length)
    (call : Calls (fun rec => ph.step rec) Phrase.parse ⟨(endMarked ts).drop i, l⟩ c) :
    ∃ j, i < j ∧ j < (endMarked ts).length ∧ c.state.tokens = (endMarked ts).drop j
  /-- The bound on the depth of a phrase is more than the tokens that are left. -/
  bounded {depth : Nat} {c : Call} (call : (TokenStream.ofTokens ts).Called depth c) :
    c.state.tokens.length < depth
  fragment : Answers (endMarked ts) (fragmentOf Phrase.parse) (TokenStream.ofTokens ts).fragment
  expression :
    Answers (endMarked ts) (expressionOf Phrase.parse) (TokenStream.ofTokens ts).expression
  imports :
    Answers (endMarked ts) (importsOf ImportSpec.parseAll) (TokenStream.ofTokens ts).imports

/-- The equations of the grammar have one solution, that is, its recursion ends; and whatever tokens
it is given, it goes forward in them and gives a tree or an error. -/
theorem parsing_terminates :
    (∀ rec : Phrases, (∀ {α : Type} (ph : Phrase α), rec ph = ph.step rec) ↔
      ∀ {α : Type} (ph : Phrase α), rec ph = Phrase.parse ph) ∧
    ImportSpec.parseAll = ImportSpec.lines ImportSpec.parseAll ∧
    ∀ ts, Terminates ts := by
  refine ⟨solves_iff, ImportSpec.parseAll_eq_lines, fun ts => ?_⟩
  refine ⟨?_, ?_, fun call => call.length_lt, ?_, ?_, ?_⟩
  · intro α strict p i hi part l
    obtain ⟨us, z, hz, hv⟩ := exists_last hi
    have hhead : headKind ((endMarked ts).drop i) = headKind us := by
      rw [hv]
      exact headKind_append z us
    have hguarded : Guarded z (us.length + 1) false strict us p p :=
      part.guarded parse_guard hhead
    exact hguarded.endsWithin (Nat.lt_succ_self _) hz hv l
  · intro α ph i l c hi call
    obtain ⟨us, z, hz, hv⟩ := exists_last hi
    exact call.position hz hv
  · exact Guarded.answers (fun z => fragmentOf_guarded (read_guard_parse (Nat.le_refl _)))
      (Nat.lt_succ_self _)
  · have hwhole (z : Trailer) : Guarded z _ false false (TokenStream.ofTokens ts).tokens
        (expressionOf (TokenStream.ofTokens ts).phrases) (expressionOf Phrase.parse) :=
      whole_guarded (read_guard_parse (Nat.le_refl _) (.binary 1) _).lower
    exact Guarded.answers hwhole (Nat.lt_succ_self _)
  · have hwhole (z : Trailer) : Guarded z _ false false (TokenStream.ofTokens ts).tokens
        (importsOf (ImportSpec.readAll ((TokenStream.ofTokens ts).tokens.length + 1)))
        (importsOf ImportSpec.parseAll) :=
      importsOf_guarded fun _ => ImportSpec.readAll_guarded_parseAll (Nat.le_refl _)
    exact Guarded.answers hwhole (Nat.lt_succ_self _)

/-- What stands behind the first end mark is not read. -/
theorem parsing_terminates_middle :
    let ts : List Token := [⟨.name "x", 0, 1, 1, 1⟩, ⟨.eof, 1, 1, 1, 2⟩,
      ⟨.symbol .lparen, 1, 2, 1, 2⟩]
    endMarked ts = ts ++ [⟨.eof, 1, 2, 1, 2⟩] ∧
      (TokenStream.ofTokens ts).fragment = .ok (.simple (.expr (.name "x"))) ∧
      EndsWithin (endMarked ts) 0 true (expr Phrase.parse ⟨(endMarked ts).drop 0, 0⟩) ∧
      Answers (endMarked ts) (fragmentOf Phrase.parse) (TokenStream.ofTokens ts).fragment := by
  intro ts
  obtain ⟨-, -, hends⟩ := parsing_terminates
  exact ⟨rfl, rfl, (hends ts).parts (by decide) .expr 0, (hends ts).fragment⟩

end GoRepl.Syntax
