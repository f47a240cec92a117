import GoRepl.Proofs.Syntax.Header
import Mathlib.Data.List.TakeWhile

/-! # Control statements with one expression as their header

Such a statement with an empty body is read if and only if the `{` behind the expression is not
taken for the body of a literal.  Behind a name, a selector, a call and most other expressions it
opens the block.  Behind an index it does not: `m[k]` could be an instantiated type.

* `Control`: the statements.
* `Control.reader_eq`, `Control.reader_error`: reading them.
* `opensLiteral_header_iff`: the operands that take the block.
* `TokenStream.expression_ends`: an expression, when the block follows.
* `TokenStream.fragment_of_header`: the statements as fragments.
-/

namespace GoRepl.Syntax

open Read Grammar

/-- Control statements whose header is one expression. -/
inductive Control where
  | conditional
  | loop
  | switch
  | range
  deriving Repr, DecidableEq, Inhabited

namespace Control

/-- The words in front of the expression. -/
def words : Control → List Kind
  | conditional => [.keyword .ifKw]
  | loop => [.keyword .forKw]
  | switch => [.keyword .switchKw]
  | range => [.keyword .forKw, .keyword .rangeKw]

/-- The statement with the header `x` and an empty body. -/
def stmt (x : Expr) : Control → Stmt
  | conditional => .ifThen none x [] none
  | loop => .loop none (some x) none []
  | switch => .switch (isTypeGuard (some (.expr x))) none (some (.expr x)) []
  | range => .range none none false x []

/-- The grammar of the statement, which its first word chooses. -/
def reader (rec : Phrases) : Control → Read Stmt
  | conditional => Grammar.conditional rec
  | switch => Grammar.switch rec
  | loop | range => Grammar.loop rec

variable {rec : Phrases} {ys zs tl rest pre : List Token} {x : Expr}

theorem words_eq (c : Control) : ∃ w ks, c.words = .keyword w :: ks := by
  cases c <;> exact ⟨_, _, rfl⟩

theorem length_pos (c : Control) (hpre : pre.map (·.kind) = c.words) : 0 < pre.length := by
  have hlen := congrArg List.length hpre
  rw [List.length_map] at hlen
  rw [hlen]
  cases c <;> decide

theorem ne_eof (c : Control) (hpre : pre.map (·.kind) = c.words) : ∀ t ∈ pre, t.kind ≠ .eof := by
  intro t ht hk
  have hkind : t.kind ∈ c.words := hpre ▸ List.mem_map_of_mem ht
  rw [hk] at hkind
  cases c <;> simp [words] at hkind

theorem stmt_run (rec : Phrases) (c : Control) (ys : List Token)
    (hpre : pre.map (·.kind) = c.words) (l : Int) :
    Grammar.stmt rec ⟨pre ++ ys, l⟩ = ended (c.reader rec) ⟨pre ++ ys, l⟩ := by
  obtain ⟨w, ks, hw⟩ := c.words_eq
  rw [hw] at hpre
  obtain ⟨t, ts, rfl, ht, -⟩ := List.map_eq_cons_iff.mp hpre
  rw [Grammar.stmt, peek_bind, show headKind (t :: ts ++ ys) = .keyword w from ht]
  cases c <;> cases hw <;> rfl

theorem reader_eq (c : Control) (hpre : pre.map (·.kind) = c.words) (hb : ReadsBlock rec tl rest)
    (h : ReadsHeader rec ys tl x) (l : Int) :
    c.reader rec ⟨pre ++ ys, l⟩ = .ok (c.stmt x, ⟨rest, l⟩) := by
  cases c with
  | conditional =>
    obtain ⟨t, rfl, ht⟩ := List.map_eq_singleton_iff.mp hpre
    exact conditional_eq hb h ht l
  | loop =>
    obtain ⟨t, rfl, ht⟩ := List.map_eq_singleton_iff.mp hpre
    exact loop_eq hb h ht l
  | switch =>
    obtain ⟨t, rfl, ht⟩ := List.map_eq_singleton_iff.mp hpre
    exact switch_eq hb h ht l
  | range =>
    obtain ⟨t, ts, rfl, ht, hts⟩ := List.map_eq_cons_iff.mp hpre
    obtain ⟨r, rfl, hr⟩ := List.map_eq_singleton_iff.mp hts
    exact rangeLoop_eq hb h ht hr l

theorem reader_error (c : Control) (hpre : pre.map (·.kind) = c.words)
    (h : ReadsHeader rec ys zs x) (hz : headKind zs ≠ .symbol .lbrace) (htail : zs.tail = [])
    (l : Int) : ∃ e, c.reader rec ⟨pre ++ ys, l⟩ = .error e := by
  cases c with
  | conditional =>
    obtain ⟨t, rfl, ht⟩ := List.map_eq_singleton_iff.mp hpre
    exact conditional_error h hz htail ht l
  | loop =>
    obtain ⟨t, rfl, ht⟩ := List.map_eq_singleton_iff.mp hpre
    exact loop_error h hz htail ht l
  | switch =>
    obtain ⟨t, rfl, ht⟩ := List.map_eq_singleton_iff.mp hpre
    exact switch_error h hz htail ht l
  | range =>
    obtain ⟨t, ts, rfl, ht, hts⟩ := List.map_eq_cons_iff.mp hpre
    obtain ⟨r, rfl, hr⟩ := List.map_eq_singleton_iff.mp hts
    exact rangeLoop_error h hz ht hr l

end Control

/-- In a header a literal opens behind an index into what may be a type, and behind a type that is
no name. -/
theorem opensLiteral_header_iff {x : Expr} : opensLiteral x (-1) = true ↔
    (∃ y as, x = .index y as ∧ y.isLiteralType = true) ∨ (∃ len elem, x = .arrayType len elem) ∨
      (∃ fields, x = .structType fields) ∨ ∃ key value, x = .mapType key value := by
  have hlevel : opensLiteral x (-1) = (x.isLiteralType && !x.isTypeName) := rfl
  rw [hlevel]
  constructor
  · intro h
    cases x with
    | index y as => exact .inl ⟨y, as, rfl, by simpa [Expr.isTypeName, Expr.isLiteralType] using h⟩
    | arrayType len elem => exact .inr (.inl ⟨len, elem, rfl⟩)
    | structType fields => exact .inr (.inr (.inl ⟨fields, rfl⟩))
    | mapType key value => exact .inr (.inr (.inr ⟨key, value, rfl⟩))
    | selector y f => cases y <;> cases h
    | _ => cases h
  · rintro (⟨y, as, rfl, hy⟩ | ⟨len, elem, rfl⟩ | ⟨fields, rfl⟩ | ⟨key, value, rfl⟩)
    · simpa [Expr.isTypeName, Expr.isLiteralType] using hy
    all_goals rfl

namespace TokenStream

variable {α : Type}

theorem ofTokens_tokens {ts : List Token} (h : ∀ t ∈ ts, t.kind ≠ .eof) :
    (ofTokens ts).tokens = ts := by
  refine List.takeWhile_eq_self_iff.mpr fun t ht => ?_
  simpa using h t ht

theorem run_eq_ok {s : TokenStream} {p : Read α} {a : α} :
    s.run p = .ok a ↔ ∃ s', p ⟨s.tokens, 0⟩ = .ok (a, s') := by
  unfold run
  cases p ⟨s.tokens, 0⟩ with
  | error f => simp
  | ok r =>
    obtain ⟨b, s'⟩ := r
    simp

theorem run_of_error {s : TokenStream} {p : Read α} {f : ReadFault}
    (h : p ⟨s.tokens, 0⟩ = .error f) : s.run p = .error (s.error f) := by
  unfold run
  rw [h]

/-- The end of the tokens is where no token is left. -/
theorem atEnd_eq_ok {ts : List Token} {l : Int} {s : ReadState}
    (h : (peek >>= fun k => if (k == .eof) = true then pure () else fail .trailing : Read Unit)
      ⟨ts, l⟩ = .ok ((), s)) : headKind ts = .eof ∧ s = ⟨ts, l⟩ := by
  rw [peek_bind] at h
  cases hb : (headKind ts == .eof) with
  | true =>
    rw [hb] at h
    cases h
    exact ⟨beq_iff_eq.mp hb, rfl⟩
  | false =>
    rw [hb] at h
    cases h

/-- What is left at the end of a fragment is nothing, or one semicolon. -/
theorem fragmentEnd_eq_ok {zs : List Token} (hz : ∀ t ∈ zs, t.kind ≠ .eof) {l : Int}
    {s : ReadState} (h : fragmentEnd ⟨zs, l⟩ = .ok ((), s)) :
    zs = [] ∨ ∃ t, zs = [t] ∧ t.kind.isSemicolon = true := by
  have hend : ∀ {ts : List Token}, (∀ t ∈ ts, t.kind ≠ .eof) → headKind ts = .eof → ts = [] := by
    intro ts hts hk
    cases ts with
    | nil => rfl
    | cons t ts => exact absurd hk (hts t List.mem_cons_self)
  unfold fragmentEnd at h
  rw [atSemicolon_bind] at h
  cases hs : (headKind zs).isSemicolon with
  | true =>
    cases zs with
    | nil => exact .inl rfl
    | cons t ts =>
      rw [hs] at h
      obtain rfl := hend (fun u hu => hz u (.tail _ hu)) (atEnd_eq_ok h).1
      exact .inr ⟨t, rfl, hs⟩
  | false =>
    rw [hs] at h
    exact .inl (hend hz (atEnd_eq_ok h).1)

variable {xs tl rest pre post : List Token} {x : Expr}

/-- An expression without a semicolon behind it takes all of its tokens.  What it does when the
block follows is up to its last operand. -/
theorem expression_ends (hxs : Plain xs) (hlast : ∀ t ∈ xs.getLast?, t.kind.isSemicolon = false)
    (hx : (ofTokens xs).expression = .ok x) (hb : EmptyBlock tl rest) {d : Nat}
    (hd : xs.length + 1 < d) (l : Int) :
    Ending.expression tl rest l x (Phrase.read d (.binary 1) ⟨xs ++ tl, l⟩) := by
  have htokens : (ofTokens xs).tokens = xs := ofTokens_tokens hxs.ne_eof
  obtain ⟨s, hrun⟩ := run_eq_ok.mp hx
  rw [phrases, htokens] at hrun
  obtain ⟨y, s', hread, hend⟩ := bind_eq_ok.mp hrun
  obtain ⟨⟨⟩, s'', hend, hy⟩ := bind_eq_ok.mp hend
  cases hy
  obtain ⟨zs, rfl, hzs, -, hq⟩ := (read_simulates hb hd).binary 1 xs hxs 0 x s' hread
  have hnil : zs = [] := by
    rcases fragmentEnd_eq_ok (hxs.suffix hzs).ne_eof hend with hnil | ⟨t, rfl, ht⟩
    · exact hnil
    · obtain ⟨ys, rfl⟩ := hzs
      have hfalse := hlast t (by simp)
      rw [ht] at hfalse
      cases hfalse
  exact (hq l).2 hnil

/-- The tokens of an empty block and of the semicolon that may be behind it. -/
theorem emptyBlock_of_kinds {ends : List Kind}
    (hends : ends = [] ∨ ends = [.newline] ∨ ends = [.symbol .semicolon])
    (hpost : post.map (·.kind) = .symbol .lbrace :: .symbol .rbrace :: ends) :
    EmptyBlock post post.tail.tail ∧ post.tail.tail.tail = [] ∧ ∀ t ∈ post, t.kind ≠ .eof := by
  have hmem : ∀ t ∈ post, t.kind ≠ .eof := by
    intro t ht hk
    have hkind : t.kind ∈ post.map (·.kind) := List.mem_map_of_mem ht
    rw [hpost, hk] at hkind
    rcases hends with rfl | rfl | rfl <;> simp at hkind
  obtain ⟨lb, post, rfl, hlb, hpost⟩ := List.map_eq_cons_iff.mp hpost
  obtain ⟨rb, rest, rfl, hrb, hrest⟩ := List.map_eq_cons_iff.mp hpost
  have hrest : rest = [] ∨ ∃ t, rest = [t] ∧ t.kind.isSemicolon = true := by
    rcases hends with rfl | rfl | rfl
    · exact .inl (List.map_eq_nil_iff.mp hrest)
    all_goals
      obtain ⟨t, rfl, ht⟩ := List.map_eq_singleton_iff.mp hrest
      exact .inr ⟨t, rfl, by rw [ht]; rfl⟩
  rcases hrest with rfl | ⟨t, rfl, ht⟩
  · exact ⟨⟨hlb, hrb, rfl, .inl rfl⟩, rfl, hmem⟩
  · exact ⟨⟨hlb, hrb, rfl, .inr ht⟩, rfl, hmem⟩

theorem readsBlock_read (hb : EmptyBlock tl rest) (n : Nat) :
    ReadsBlock (Phrase.read (n + 1)) tl rest where
  block := hb
  stmts_eq l := by
    change stmts (Phrase.read n) ⟨tl.tail, l⟩ = _
    rw [stmts, peek_bind, hb.second]
    rfl
  caseClauses_eq l := by
    change caseClauses (Phrase.read n) ⟨tl.tail, l⟩ = _
    rw [caseClauses, atListEnd, bind_assoc, peek_bind, hb.second]
    rfl

theorem readsHeader_read {ys zs : List Token} {n : Nat}
    (h : Phrase.read (n + 2) (.binary 1) ⟨ys, -1⟩ = .ok (x, ⟨zs, -1⟩))
    (hzs : headKind zs = .symbol .lbrace ∨ headKind zs = .eof ∨ headKind zs = .newline ∨
      headKind zs = .symbol .semicolon) :
    ReadsHeader (Phrase.read (n + 1)) ys zs x where
  expr_eq := h
  exprsTail_eq := by
    change exprsTail (Phrase.read n) ⟨zs, -1⟩ = _
    rw [exprsTail, atSymbol_bind]
    rcases hzs with hk | hk | hk | hk
    all_goals
      rw [hk]
      rfl
  stops := hzs

/-- A fragment starts with no `}`. -/
theorem fragment_run {s : TokenStream} (h : headKind s.tokens ≠ .symbol .rbrace) :
    s.fragment = s.run (whole (s.phrases .stmt)) := by
  unfold fragment run
  rw [atSymbol_bind, beq_eq_false_iff_ne.mpr h]
  rfl

/-- Behind what is read of a whole stream comes the end of the fragment. -/
theorem whole_eq_ok {p : Read α} {s s' : ReadState} {a : α} :
    whole p s = .ok (a, s') ↔ ∃ s₁, p s = .ok (a, s₁) ∧ fragmentEnd s₁ = .ok ((), s') := by
  unfold whole
  constructor
  · intro h
    obtain ⟨b, s₁, hp, hrest⟩ := bind_eq_ok.mp h
    obtain ⟨⟨⟩, s₂, hend, hpure⟩ := bind_eq_ok.mp hrest
    cases hpure
    exact ⟨s₁, hp, hend⟩
  · rintro ⟨s₁, hp, hend⟩
    rw [bind_of_ok hp, bind_of_ok hend]
    rfl

/-- A fragment is one statement, and then the end. -/
theorem fragment_eq_ok {s : TokenStream} {a : Stmt} : s.fragment = .ok a ↔
    headKind s.tokens ≠ .symbol .rbrace ∧ ∃ s₁ s', s.phrases .stmt ⟨s.tokens, 0⟩ = .ok (a, s₁) ∧
      fragmentEnd s₁ = .ok ((), s') := by
  by_cases hb : headKind s.tokens = .symbol .rbrace
  · unfold fragment run
    rw [atSymbol_bind, hb]
    simp [Read.unexpected, Read.fail, bind, StateT.bind, Except.bind]
  · rw [fragment_run hb, run_eq_ok]
    simp only [whole_eq_ok, hb, ne_eq, not_false_eq_true, true_and]
    exact exists_comm

theorem ended_eq (hb : EmptyBlock tl rest) (hrest : rest.tail = []) {p : Read Stmt}
    {ys : List Token} {a : Stmt} (h : p ⟨ys, 0⟩ = .ok (a, ⟨rest, 0⟩)) :
    whole (ended p) ⟨ys, 0⟩ = .ok (a, ⟨[], 0⟩) := by
  have hend : statementEnd ⟨rest, 0⟩ = .ok ((), ⟨[], 0⟩) := by
    unfold statementEnd
    rw [peek_bind]
    rcases hb.ends with rfl | hk
    · rfl
    · rcases isSemicolon_iff.mp hk with hk | hk
      all_goals
        rw [hk, ← hrest]
        rfl
  have hended : ended p ⟨ys, 0⟩ = .ok (a, ⟨[], 0⟩) := by
    unfold ended
    rw [bind_of_ok h, bind_of_ok hend]
    rfl
  unfold whole
  rw [bind_of_ok hended]
  rfl

theorem whole_congr {p q : Read α} {s : ReadState} (h : p s = q s) : whole p s = whole q s := by
  change (p s >>= fun r => (fragmentEnd >>= fun _ => pure r.1) r.2) = _
  rw [h]
  rfl

/-- A fragment that starts with the words of a control statement. -/
theorem fragment_of_words (c : Control) (hpre : pre.map (·.kind) = c.words) {ys : List Token}
    {n : Nat} (hn : (pre ++ ys).length = n + 1) (hys : ∀ t ∈ ys, t.kind ≠ .eof) :
    let s := ofTokens (pre ++ ys)
    s.tokens = pre ++ ys ∧
      s.fragment = s.run (whole (ended (c.reader (Phrase.read (n + 1))))) := by
  intro s
  have htokens : s.tokens = pre ++ ys := ofTokens_tokens fun t ht =>
    (List.mem_append.mp ht).elim (c.ne_eof hpre t) (hys t)
  refine ⟨htokens, ?_⟩
  have hhead : headKind s.tokens ≠ .symbol .rbrace := by
    obtain ⟨w, ks, hw⟩ := c.words_eq
    rw [hw] at hpre
    obtain ⟨t, ts, rfl, ht, -⟩ := List.map_eq_cons_iff.mp hpre
    rw [htokens, show headKind (t :: ts ++ ys) = .keyword w from ht]
    exact nofun
  have hstmt := c.stmt_run (Phrase.read (n + 1)) ys hpre 0
  rw [fragment_run hhead, phrases, htokens, hn]
  unfold run
  rw [htokens, ← whole_congr hstmt]
  rfl

section

variable {ys : List Token} {n : Nat} (hn : (pre ++ ys).length = n + 1)
  (hys : ∀ t ∈ ys, t.kind ≠ .eof) (hb : EmptyBlock tl rest) (hrest : rest.tail = [])

include hn hys hb hrest

/-- The statement, if its header ends in front of the block. -/
theorem fragment_eq_of_header (c : Control) (hpre : pre.map (·.kind) = c.words)
    (h : Phrase.read (n + 2) (.binary 1) ⟨ys, -1⟩ = .ok (x, ⟨tl, -1⟩)) :
    (ofTokens (pre ++ ys)).fragment = .ok (c.stmt x) := by
  obtain ⟨htokens, hfragment⟩ := fragment_of_words c hpre hn hys
  have hheader := readsHeader_read h (.inl hb.head)
  have hreader := c.reader_eq hpre (readsBlock_read hb n) hheader 0
  rw [hfragment]
  refine run_eq_ok.mpr ⟨⟨[], 0⟩, ?_⟩
  rw [htokens]
  exact ended_eq hb hrest hreader

/-- There is none if the header ends behind the block. -/
theorem fragment_error_of_header (c : Control) (hpre : pre.map (·.kind) = c.words)
    (h : Phrase.read (n + 2) (.binary 1) ⟨ys, -1⟩ = .ok (x, ⟨rest, -1⟩)) :
    ∃ e, (ofTokens (pre ++ ys)).fragment = .error e := by
  obtain ⟨htokens, hfragment⟩ := fragment_of_words c hpre hn hys
  have hheader := readsHeader_read h (.inr hb.ends_kind)
  obtain ⟨e, he⟩ := c.reader_error hpre hheader (hb.rest_ne nofun rfl) hrest 0
  rw [hfragment]
  refine ⟨_, run_of_error (f := e) ?_⟩
  rw [htokens]
  exact bind_of_error (bind_of_error he _) _

end

/-- A control statement with an empty body and with an expression, without braces and functions, as
its header is a fragment if and only if the last operand of the expression does not open a literal
below the level of expressions. -/
theorem fragment_of_header (hxs : Plain xs) (hlast : ∀ t ∈ xs.getLast?, t.kind.isSemicolon = false)
    (hx : (ofTokens xs).expression = .ok x) (c : Control) (hpre : pre.map (·.kind) = c.words)
    {ends : List Kind} (hends : ends = [] ∨ ends = [.newline] ∨ ends = [.symbol .semicolon])
    (hpost : post.map (·.kind) = .symbol .lbrace :: .symbol .rbrace :: ends) :
    (opensLiteral x.lastOperand (-1) = false →
      (ofTokens (pre ++ (xs ++ post))).fragment = .ok (c.stmt x)) ∧
    (opensLiteral x.lastOperand (-1) = true →
      ∃ e, (ofTokens (pre ++ (xs ++ post))).fragment = .error e) := by
  obtain ⟨hb, hrest, hpostEof⟩ := emptyBlock_of_kinds hends hpost
  have heof : ∀ t ∈ xs ++ post, t.kind ≠ .eof := fun t ht =>
    (List.mem_append.mp ht).elim (hxs.ne_eof t) (hpostEof t)
  -- the words and the brace make room for a deeper nesting than the expression alone has
  have hlen := c.length_pos hpre
  obtain ⟨n, hn⟩ : ∃ n, (pre ++ (xs ++ post)).length = n + 1 := by
    refine Nat.exists_eq_succ_of_ne_zero ?_
    rw [List.length_append]
    omega
  have hd : xs.length + 1 < n + 2 := by
    rw [List.length_append, List.length_append] at hn
    omega
  have hexpr := expression_ends hxs hlast hx hb hd (-1)
  rw [Ending.expression] at hexpr
  constructor
  · intro ho
    rw [if_neg (by simp [ho])] at hexpr
    exact fragment_eq_of_header hn heof hb hrest c hpre hexpr
  · intro ho
    rw [if_pos ho] at hexpr
    exact fragment_error_of_header hn heof hb hrest c hpre hexpr

/-- Tokens of some kinds, without places in a source. -/
def spell (ks : List Kind) : List Token := ks.map fun k => ⟨k, default⟩

theorem fragment_of_header_call :
    let xs := spell [.name "f", .symbol .lparen, .name "x", .symbol .rparen]
    let x := Expr.call (.name "f") [.name "x"] false
    (ofTokens xs).expression = .ok x ∧
      (ofTokens (spell [.keyword .ifKw] ++
        (xs ++ spell [.symbol .lbrace, .symbol .rbrace]))).fragment =
          .ok (.ifThen none x [] none) := by
  intro xs x
  have hx : (ofTokens xs).expression = .ok x := rfl
  have hplain : Plain xs := by
    unfold Plain
    decide
  exact ⟨hx, (fragment_of_header hplain (by decide) hx .conditional rfl (.inl rfl) rfl).1 rfl⟩

/-- An index is an expression, but as a header it takes the block. -/
theorem header_index_rejected :
    let xs := spell [.name "m", .symbol .lbrack, .name "k", .symbol .rbrack]
    Plain xs ∧ (ofTokens xs).expression = .ok (.index (.name "m") [.name "k"]) ∧
      ∀ (c : Control) (st : Stmt),
        (ofTokens (spell c.words ++ (xs ++ spell [.symbol .lbrace, .symbol .rbrace]))).fragment ≠
          .ok st := by
  intro xs
  refine ⟨?_, rfl, ?_⟩
  · unfold Plain
    decide
  · intro c st h
    cases c <;> cases h

example : (parseExpression "m[k]").isOk = true ∧ (parseFragment "if m[k] {}").isOk = false := by
  decide +kernel

end TokenStream

end GoRepl.Syntax
