import GoRepl.Proofs.Syntax.FormedExpressions
import GoRepl.Proofs.Syntax.NestedPhrases
import GoRepl.Proofs.Syntax.Spans
import GoRepl.Proofs.Token.Depths

/-! # What stands outside all brackets of an expression

An expression has its commas, colons, semicolons and assignments in brackets only.  It is a name if
and only if it is spelled by that name alone.

* `Kind.separates`, `Quiet`: nested kinds without separators outside all brackets.
* `Spells`: how the kinds of an expression tell whether it is a name.
* `TakesQuiet`: a reader takes quiet kinds, and they are related to what it gives.
* `type_quiet`, `primary_quiet` and the lemmas around them: the grammar of types and expressions.
* `exprs_listed`: lists of expressions, with commas between quiet kinds.
* `read_spell`: so by induction the readers of any depth.
-/

namespace GoRepl

open Syntax Grammar

/-- What separates the parts of statements. -/
def Kind.separates (k : Kind) : Bool :=
  k.isSemicolon || (assignOp? k).isSome || k == .symbol .comma || k == .symbol .colon

/-- Nested kinds with all separators inside brackets. -/
inductive Quiet : List Kind → Prop
  | nil : Quiet []
  | other {k : Kind} {ks : List Kind} (plain : k.depth = 0) (quiet : k.separates = false)
      (rest : Quiet ks) : Quiet (k :: ks)
  | pair (b : Bracket) {inner ks : List Kind} (between : Nested inner) (rest : Quiet ks) :
      Quiet (.symbol b.opening :: (inner ++ .symbol b.closing :: ks))

theorem Quiet.append {ks ks' : List Kind} (h : Quiet ks) (h' : Quiet ks') : Quiet (ks ++ ks') := by
  induction h with
  | nil => exact h'
  | other plain quiet _ ih => exact .other plain quiet ih
  | pair b between _ ih =>
    rw [List.cons_append, List.append_assoc, List.cons_append]
    exact .pair b between ih

theorem Quiet.nested {ks : List Kind} (h : Quiet ks) : Nested ks := by
  induction h with
  | nil => exact .nil
  | other plain _ _ ih => exact .other plain ih
  | pair b between _ ih => exact .pair b between ih

theorem Quiet.without {ks : List Kind} (h : Quiet ks) : Without Kind.separates ks := by
  refine ⟨h.nested, ?_⟩
  induction h with
  | nil => exact nofun
  | other plain quiet _ ih =>
    rw [depths, plain]
    exact List.forall_mem_cons.mpr ⟨fun _ => quiet, ih⟩
  | pair b between _ ih =>
    have hopening : (Kind.symbol b.opening).separates = false := by cases b <;> rfl
    have hclosing : (Kind.symbol b.closing).separates = false := by cases b <;> rfl
    rw [depths, b.depth_opening, between.depths_append, depths, b.depth_closing]
    refine List.forall_mem_cons.mpr ⟨fun _ => hopening, List.forall_mem_append.mpr ⟨?_, ?_⟩⟩
    · intro m hm hzero
      have hinner := between.le_depths _ m hm
      omega
    · exact List.forall_mem_cons.mpr ⟨fun _ => hclosing, ih⟩

/-- The kinds close the open brackets, the first one first, and are quiet behind that. -/
def QuietBehind : List Bracket → List Kind → Prop
  | [], ks => Quiet ks
  | b :: outer, ks => ∃ inner rest, ks = inner ++ .symbol b.closing :: rest ∧ Nested inner ∧
      QuietBehind outer rest

namespace QuietBehind

variable {bs : List Bracket} {b : Bracket} {k : Kind} {ks ks' : List Kind}

theorem append_nested (h : Nested ks) (h' : QuietBehind (b :: bs) ks') :
    QuietBehind (b :: bs) (ks ++ ks') := by
  obtain ⟨inner, rest, rfl, hinner, hrest⟩ := h'
  exact ⟨ks ++ inner, rest, (List.append_assoc ..).symm, h.append hinner, hrest⟩

theorem opening (h : QuietBehind [b] ks) : Quiet (.symbol b.opening :: ks) := by
  obtain ⟨inner, rest, rfl, hinner, hrest⟩ := h
  exact .pair b hinner hrest

theorem closing (h : QuietBehind bs ks) : QuietBehind (b :: bs) (.symbol b.closing :: ks) :=
  ⟨[], ks, rfl, .nil, h⟩

end QuietBehind

namespace Syntax

open Read

/-- An expression that is no name has some token that is no name. -/
def SpellsOther (ks : List Kind) (x : Expr) : Prop :=
  (∀ n, x ≠ .name n) ∧ ∃ k ∈ ks, ∀ n, k ≠ .name n

/-- A name is spelled by that name alone. -/
def Spells (ks : List Kind) (x : Expr) : Prop :=
  (∃ n, x = .name n ∧ ks = [.name n]) ∨ SpellsOther ks x

/-- What extends `x`, if anything, makes something else than a name of it. -/
def SpellsTail (x : Expr) (ks : List Kind) (y : Expr) : Prop :=
  (ks = [] ∧ y = x) ∨ SpellsOther ks y

namespace SpellsOther

variable {ks ks' : List Kind} {x : Expr}

theorem append_left (ks' : List Kind) (h : SpellsOther ks x) : SpellsOther (ks' ++ ks) x := by
  obtain ⟨hx, k, hk, hname⟩ := h
  exact ⟨hx, k, List.mem_append_right _ hk, hname⟩

theorem tail {y : Expr} (h : SpellsOther ks x) (ht : SpellsTail x ks' y) :
    SpellsOther (ks ++ ks') y := by
  obtain ⟨rfl, rfl⟩ | hy := ht
  · rwa [List.append_nil]
  · exact hy.append_left ks

end SpellsOther

theorem Spells.tail {ks ks' : List Kind} {x y : Expr} (h : Spells ks x)
    (ht : SpellsTail x ks' y) : Spells (ks ++ ks') y := by
  obtain ⟨rfl, rfl⟩ | hy := ht
  · rwa [List.append_nil]
  · exact .inr (hy.append_left ks)

/-- Expressions with commas between them. -/
inductive Listed : List Kind → List Expr → Prop
  | one {ks : List Kind} {x : Expr} (quiet : Quiet ks) (spells : Spells ks x) : Listed ks [x]
  | cons {ks ks' : List Kind} {x : Expr} {xs : List Expr} (quiet : Quiet ks) (spells : Spells ks x)
      (rest : Listed ks' xs) : Listed (ks ++ .symbol .comma :: ks') (x :: xs)

theorem Listed.without {p : Kind → Bool} {ks : List Kind} {xs : List Expr} (h : Listed ks xs)
    (hcomma : p (.symbol .comma) = false) (hp : ∀ k, p k = true → k.separates = true) :
    Without p ks := by
  induction h with
  | one quiet _ => exact quiet.without.mono hp
  | cons quiet _ _ ih => exact (quiet.without.mono hp).append (.cons rfl hcomma ih)

/-- A single name is spelled by that name alone. -/
theorem Listed.eq_of_name {ks : List Kind} {n : String} (h : Listed ks [.name n]) :
    ks = [.name n] := by
  cases h with
  | one _ spells =>
    obtain ⟨m, hm, hks⟩ | ⟨hne, -⟩ := spells
    · cases hm
      exact hks
    · exact absurd rfl (hne n)
  | cons _ _ rest => cases rest

/-- More expressions, with a comma in front of each. -/
def ListedTail (ks : List Kind) (xs : List Expr) : Prop :=
  (ks = [] ∧ xs = []) ∨ ∃ ks', ks = .symbol .comma :: ks' ∧ Listed ks' xs

/-- Whatever `p` takes from `ts` closes the brackets `bs` and is quiet behind that.  Behind the
kinds `before` it is related by `post` to what `p` gives. -/
def TakesQuiet {α : Type} (bs : List Bracket) (before : List Kind) (post : List Kind → α → Prop) :
    List Token → Read α → Prop :=
  Spans fun ks a => QuietBehind bs ks ∧ post (before ++ ks) a

namespace TakesQuiet

variable {α β : Type} {bs : List Bracket} {b : Bracket} {before : List Kind}
  {post : List Kind → α → Prop} {given : List Kind → β → Prop} {ts : List Token} {sym : Symbol}
  {k : Kind}

theorem of_pure {a : α} (h : post before a) : TakesQuiet [] before post ts (pure a) :=
  Spans.of_pure ⟨.nil, by rwa [List.append_nil]⟩

theorem fail (f : SyntaxFault) : TakesQuiet bs before post ts (Read.fail f) := Spans.fail f

theorem unexpected (w : Wanted) : TakesQuiet bs before post ts (Read.unexpected w) :=
  Spans.unexpected w

theorem weaken {before' : List Kind} {post' : List Kind → α → Prop} {p : Read α}
    (hp : TakesQuiet bs before' post' ts p)
    (h : ∀ ks a, post' (before' ++ ks) a → post (before ++ ks) a) :
    TakesQuiet bs before post ts p :=
  Spans.mono hp fun ks a ha => ⟨ha.1, h ks a ha.2⟩

/-- A reader goes on with the kinds of another one. -/
theorem chain {p : Read β} {f : β → Read α} (hp : TakesQuiet [] before given ts p)
    (hf : ∀ a ks zs, given ks a → TakesQuiet [] ks post zs (f a)) :
    TakesQuiet [] before post ts (p >>= f) := by
  refine Spans.bind hp fun a ks zs ha => (hf a _ zs ha.2).mono fun ks' c hc => ?_
  rw [List.append_assoc] at hc
  exact ⟨Quiet.append ha.1 hc.1, hc.2⟩

/-- Behind a part with kinds of its own. -/
theorem bind {p : Read β} {f : β → Read α} (hp : TakesQuiet [] [] given ts p)
    (hf : ∀ a ks zs, given ks a → TakesQuiet [] (before ++ ks) post zs (f a)) :
    TakesQuiet [] before post ts (p >>= f) := by
  have hframed : TakesQuiet [] before (fun ks a => ∃ ks', ks = before ++ ks' ∧ given ks' a) ts p :=
    hp.weaken fun ks a ha => ⟨ks, rfl, ha⟩
  refine hframed.chain fun a ks zs ha => ?_
  obtain ⟨ks', rfl, ha⟩ := ha
  exact hf a ks' zs ha

/-- Inside a bracket, where all that matters is that the brackets are nested. -/
theorem inside_of {Q : β → Prop} {p : Read β} {f : β → Read α} (hp : Takes [] ts p)
    (hQ : Gives Q p) (hf : ∀ a ks zs, Q a → TakesQuiet (b :: bs) (before ++ ks) post zs (f a)) :
    TakesQuiet (b :: bs) before post ts (p >>= f) := by
  have hspans : Spans (fun ks a => Nested ks ∧ Q a) ts p := fun l a s h => by
    obtain ⟨taken, hts, hnested⟩ := hp l a s h
    exact ⟨taken, hts, hnested, hQ _ a s h⟩
  refine Spans.bind hspans fun a ks zs ha => (hf a ks zs ha.2).mono fun ks' c hc => ?_
  rw [List.append_assoc] at hc
  exact ⟨.append_nested ha.1 hc.1, hc.2⟩

theorem inside {p : Read β} {f : β → Read α} (hp : Takes [] ts p)
    (hf : ∀ a ks zs, TakesQuiet (b :: bs) (before ++ ks) post zs (f a)) :
    TakesQuiet (b :: bs) before post ts (p >>= f) :=
  inside_of hp (Q := fun _ => True) (fun _ _ _ _ => trivial) fun a ks zs _ => hf a ks zs

theorem pure_bind {a : β} {f : β → Read α} (h : TakesQuiet bs before post ts (f a)) :
    TakesQuiet bs before post ts (pure a >>= f) := h

theorem peek {f : Kind → Read α} (h : ∀ k, headKind ts = k → TakesQuiet bs before post ts (f k)) :
    TakesQuiet bs before post ts (peek >>= f) := Spans.peek h

theorem peekSecond {f : Kind → Read α} (h : ∀ k, TakesQuiet bs before post ts (f k)) :
    TakesQuiet bs before post ts (peekSecond >>= f) := Spans.peekSecond fun k _ => h k

theorem level {f : Int → Read α} (h : ∀ l, TakesQuiet bs before post ts (f l)) :
    TakesQuiet bs before post ts (level >>= f) := Spans.level h

theorem atSymbol {f : Bool → Read α}
    (htrue : headKind ts = .symbol sym → TakesQuiet bs before post ts (f true))
    (hfalse : TakesQuiet bs before post ts (f false)) :
    TakesQuiet bs before post ts (atSymbol sym >>= f) := Spans.atSymbol htrue hfalse

theorem skip_of {bs' : List Bracket} {f : Unit → Read α} (hk : headKind ts = k) (hne : k ≠ .eof)
    (hbs : ∀ ks, QuietBehind bs' ks → QuietBehind bs (k :: ks))
    (h : ∀ zs, TakesQuiet bs' (before ++ [k]) post zs (f ())) :
    TakesQuiet bs before post ts (skip >>= f) := by
  refine Spans.skip_of (fun he => absurd (hk ▸ he) hne) ((h _).mono fun ks a ha => ?_)
  rw [List.append_assoc, List.singleton_append, ← hk] at ha
  exact ⟨hk ▸ hbs ks ha.1, ha.2⟩

theorem skip {f : Unit → Read α} (hk : headKind ts = k) (hd : k.depth = 0)
    (hq : k.separates = false) (hne : k ≠ .eof)
    (h : ∀ zs, TakesQuiet [] (before ++ [k]) post zs (f ())) :
    TakesQuiet [] before post ts (skip >>= f) := by
  have hcons : ∀ ks, QuietBehind [] ks → QuietBehind [] (k :: ks) := fun _ hks =>
    Quiet.other hd hq hks
  exact skip_of hk hne hcons h

theorem skip_inside {f : Unit → Read α} (hk : headKind ts = k) (hd : k.depth = 0) (hne : k ≠ .eof)
    (h : ∀ zs, TakesQuiet (b :: bs) (before ++ [k]) post zs (f ())) :
    TakesQuiet (b :: bs) before post ts (Read.skip >>= f) :=
  skip_of hk hne (fun _ hks => .append_nested (.other hd .nil) hks) h

theorem skip_opening (b : Bracket) {f : Unit → Read α} (hk : headKind ts = .symbol b.opening)
    (h : ∀ zs, TakesQuiet [b] (before ++ [.symbol b.opening]) post zs (f ())) :
    TakesQuiet [] before post ts (Read.skip >>= f) :=
  skip_of hk nofun (fun _ hks => QuietBehind.opening hks) h

theorem expect_opening (b : Bracket) {f : Unit → Read α}
    (h : ∀ zs, TakesQuiet [b] (before ++ [.symbol b.opening]) post zs (f ())) :
    TakesQuiet [] before post ts (Read.expect b.opening >>= f) :=
  Spans.expect_of fun hk => skip_opening b hk h

theorem expect_closing (b : Bracket) {f : Unit → Read α}
    (h : ∀ zs, TakesQuiet bs (before ++ [.symbol b.closing]) post zs (f ())) :
    TakesQuiet (b :: bs) before post ts (Read.expect b.closing >>= f) :=
  Spans.expect_of fun hk => skip_of hk nofun (fun _ hks => QuietBehind.closing hks) h

theorem expectKeyword {w : Keyword} {f : Unit → Read α}
    (h : ∀ zs, TakesQuiet [] (before ++ [.keyword w]) post zs (f ())) :
    TakesQuiet [] before post ts (expectKeyword w >>= f) :=
  Spans.expectKeyword_of fun hk => skip hk rfl rfl nofun h

theorem expectName {f : String → Read α}
    (h : ∀ n zs, TakesQuiet [] (before ++ [.name n]) post zs (f n)) :
    TakesQuiet [] before post ts (expectName >>= f) :=
  Spans.expectName_of fun n hk => skip hk rfl rfl nofun (h n)

theorem nested {p : Read α} (h : TakesQuiet bs before post ts p) :
    TakesQuiet bs before post ts (nested p) := Spans.nested h

end TakesQuiet

/-- The readers of types and expressions take quiet kinds that spell what they give, and readers of
lists have commas between these. -/
structure Phrases.Spell (rec : Phrases) : Prop where
  type : ∀ ts, TakesQuiet [] [] Spells ts (rec .type)
  unary : ∀ ts, TakesQuiet [] [] Spells ts (rec .unary)
  binary : ∀ prec ts, TakesQuiet [] [] Spells ts (rec (.binary prec))
  binaryTail : ∀ prec x ts, TakesQuiet [] [] (SpellsTail x) ts (rec (.binaryTail prec x))
  primaryTail : ∀ x ts, TakesQuiet [] [] (SpellsTail x) ts (rec (.primaryTail x))
  exprsTail : ∀ ts, Spans ListedTail ts (rec .exprsTail)

section Step

variable {rec : Phrases} {ts : List Token} {before : List Kind} (hn : Phrases.Nest rec)
  (h : Phrases.Spell rec)

/-! ## Types -/

section

include hn

theorem paramList_quiet :
    TakesQuiet [] [] (fun _ _ => True) ts (paramList rec) := by
  unfold paramList
  refine .expect_opening .paren fun _ => .inside (hn _ _) fun fs _ _ => ?_
  exact .expect_closing .paren fun _ => .of_pure trivial

theorem structType_quiet : TakesQuiet [] [] SpellsOther ts (structType rec) := by
  unfold structType
  refine .expectKeyword fun _ => .expect_opening .brace fun _ => .inside (hn _ _) fun fs _ _ => ?_
  exact .expect_closing .brace fun _ => .of_pure ⟨nofun, .keyword .structKw, by simp, nofun⟩

theorem interfaceType_quiet : TakesQuiet [] [] SpellsOther ts (interfaceType rec) := by
  unfold interfaceType
  refine .expectKeyword fun _ => .expect_opening .brace fun _ => .inside (hn _ _) fun is _ _ => ?_
  exact .expect_closing .brace fun _ => .of_pure ⟨nofun, .keyword .interfaceKw, by simp, nofun⟩

theorem typeArguments_quiet {base : Expr} (hbase : Spells before base) :
    TakesQuiet [] before Spells ts (typeArguments rec base) := by
  unfold typeArguments
  refine .peekSecond fun second => .atSymbol (fun hk => ?_) (.of_pure hbase)
  split
  · refine .skip_opening .square hk fun _ => .inside (types_takes hn) fun us _ _ => ?_
    refine .expect_closing .square fun _ => .of_pure (.inr ⟨nofun, .symbol .lbrack, ?_, nofun⟩)
    simp [Bracket.opening]
  · exact .of_pure hbase

theorem namedTail_quiet (n : String) : TakesQuiet [] [.name n] Spells ts (namedTail rec n) := by
  rw [namedTail_eq]
  refine .atSymbol (fun hk => ?_) (typeArguments_quiet hn (.inl ⟨n, rfl, rfl⟩))
  refine .skip hk rfl rfl nofun fun _ => .expectName fun f _ => typeArguments_quiet hn (.inr ?_)
  exact ⟨nofun, .symbol .period, by simp, nofun⟩

include h

theorem signature_quiet : TakesQuiet [] [] (fun _ _ => True) ts (signature rec) := by
  unfold signature
  refine .bind (paramList_quiet hn) fun ps _ zs _ => .peek fun k _ => ?_
  split
  · exact .bind (paramList_quiet hn) fun rs _ _ _ => .of_pure trivial
  · split
    · exact .bind (h.type _) fun t _ _ _ => .of_pure trivial
    · exact .of_pure trivial

theorem arrayTail_quiet :
    TakesQuiet [.square] [.symbol .lbrack] SpellsOther ts (arrayTail rec) := by
  unfold arrayTail
  refine .peek fun k hk => ?_
  extract_lets elem
  have helem : ∀ len before zs, .symbol .lbrack ∈ before →
      TakesQuiet [.square] before SpellsOther zs (elem len) := fun len before zs hmem => by
    refine .expect_closing .square fun _ => .bind (h.type _) fun t _ _ _ => .of_pure ?_
    exact ⟨nofun, .symbol .lbrack, by simp [hmem], nofun⟩
  split
  · exact .pure_bind (helem none _ _ (.head _))
  · exact .skip_inside hk rfl nofun fun _ => .pure_bind (helem _ _ _ (.head _))
  · exact .inside (.nested (hn _ _)) fun n _ _ => .pure_bind (helem _ _ _ (.head _))

theorem type_quiet : TakesQuiet [] [] Spells ts (type rec) := by
  have hother : ∀ {before zs} {p : Read Expr}, TakesQuiet [] before SpellsOther zs p →
      TakesQuiet [] before Spells zs p := fun hp => hp.weaken fun _ _ hx => .inr hx
  unfold type
  refine .peek fun k hk => ?_
  split
  · exact .skip hk rfl rfl nofun fun _ => namedTail_quiet hn _
  · refine .skip_opening .square hk fun _ => ?_
    exact (arrayTail_quiet hn h).weaken fun _ _ hx => .inr hx
  · exact hother (structType_quiet hn)
  · exact hother (interfaceType_quiet hn)
  · refine .skip hk rfl rfl nofun fun _ => .bind (h.type _) fun t _ _ _ => .of_pure (.inr ?_)
    exact ⟨nofun, _, .head _, nofun⟩
  · refine .skip hk rfl rfl nofun fun _ => .bind (signature_quiet hn h) fun s _ _ _ => ?_
    exact .of_pure (.inr ⟨nofun, _, .head _, nofun⟩)
  · refine .skip hk rfl rfl nofun fun _ => .expect_opening .square fun _ => ?_
    refine .inside (hn _ _) fun k _ _ => .expect_closing .square fun _ => ?_
    refine .bind (h.type _) fun v _ _ _ => .of_pure (.inr ⟨nofun, _, .head _, nofun⟩)
  · have helem : ∀ dir before zs, .keyword .chanKw ∈ before → TakesQuiet [] before Spells zs
        (rec .type >>= fun t => pure (Expr.chanType dir t)) := fun dir before zs hmem => by
      refine .bind (h.type _) fun t _ _ _ => .of_pure (.inr ⟨nofun, .keyword .chanKw, ?_, nofun⟩)
      exact List.mem_append_left _ hmem
    refine .skip hk rfl rfl nofun fun _ => .atSymbol (fun ha => ?_) ?_
    · exact .skip ha rfl rfl nofun fun _ => .pure_bind (helem _ _ _ (.head _))
    · exact .pure_bind (helem _ _ _ (.head _))
  · refine .skip hk rfl rfl nofun fun _ => .expectKeyword fun _ => ?_
    exact .bind (h.type _) fun t _ _ _ => .of_pure (.inr ⟨nofun, _, .head _, nofun⟩)
  · refine .skip_opening .paren hk fun _ => .inside (hn _ _) fun t _ _ => ?_
    exact .expect_closing .paren fun _ => .of_pure (.inr ⟨nofun, _, .head _, nofun⟩)
  · exact .unexpected _

/-! ## Expressions -/

theorem funcOperand_quiet :
    TakesQuiet [] [.keyword .funcKw] SpellsOther ts (funcOperand rec) := by
  unfold funcOperand
  refine .bind (signature_quiet hn h) fun s _ zs _ => .atSymbol (fun hk => ?_) (.of_pure ?_)
  · have hbody : TakesQuiet [] [] (fun _ _ => True) zs (nested (skip >>= fun _ =>
        rec .stmts >>= fun b => expect .rbrace >>= fun _ => pure b)) := by
      refine .nested (.skip_opening .brace hk fun _ => .inside (hn _ _) fun b _ _ => ?_)
      exact .expect_closing .brace fun _ => .of_pure trivial
    exact .bind hbody fun b _ _ _ => .of_pure ⟨nofun, _, .head _, nofun⟩
  · exact ⟨nofun, _, .head _, nofun⟩

theorem operand_quiet : TakesQuiet [] [] Spells ts (operand rec) := by
  unfold operand
  refine .peek fun k hk => ?_
  split
  · exact .skip hk rfl rfl nofun fun _ => .of_pure (.inl ⟨_, rfl, rfl⟩)
  · exact .skip hk rfl rfl nofun fun _ => .of_pure (.inr ⟨nofun, _, .head _, nofun⟩)
  · refine .skip_opening .paren hk fun _ => .inside (.nested (hn _ _)) fun x _ _ => ?_
    exact .expect_closing .paren fun _ => .of_pure (.inr ⟨nofun, _, .head _, nofun⟩)
  · refine .skip hk rfl rfl nofun fun _ => ?_
    exact (funcOperand_quiet hn h).weaken fun _ _ hx => .inr hx
  all_goals first | exact type_quiet hn h | exact .unexpected _

theorem primary_quiet : TakesQuiet [] [] Spells ts (primary rec) := by
  unfold primary
  refine .bind (operand_quiet hn h) fun x ks _ hx => ?_
  exact (h.primaryTail x _).weaken fun ks' y hy => hx.tail hy

omit hn h in
theorem receive_quiet (x : Expr) (hb : .symbol .arrow ∈ before) :
    TakesQuiet [] before SpellsOther ts (receive x) := by
  unfold receive
  split
  · exact .of_pure ⟨nofun, _, hb, nofun⟩
  · exact .fail _
  · exact .of_pure ⟨nofun, _, hb, nofun⟩

omit hn h in
theorem quiet_of_unaryOp? {k : Kind} {op : UnaryOp} (hop : unaryOp? k = some op) :
    k.separates = false ∧ ∀ n, k ≠ .name n := by
  unfold unaryOp? at hop
  split at hop
  all_goals first | exact ⟨rfl, nofun⟩ | cases hop

theorem unary_quiet : TakesQuiet [] [] Spells ts (unary rec) := by
  unfold unary
  refine .peek fun k hk => ?_
  split
  · rename_i op hop
    obtain ⟨hq, hname⟩ := quiet_of_unaryOp? hop
    have hne : k ≠ .eof := by
      rintro rfl
      cases hop
    refine .skip hk (depth_of_unaryOp? hop) hq hne fun _ => .bind (h.unary _) fun x _ _ _ => ?_
    exact .of_pure (.inr ⟨nofun, k, .head _, hname⟩)
  · split
    · rename_i ha
      obtain rfl := eq_of_beq ha
      refine .skip hk rfl rfl nofun fun _ => .bind (h.unary _) fun x _ _ _ => ?_
      exact (receive_quiet x (.head _)).weaken fun _ _ hx => .inr hx
    · split
      · rename_i hm
        obtain rfl := eq_of_beq hm
        refine .skip hk rfl rfl nofun fun _ => .bind (h.unary _) fun x _ _ _ => ?_
        exact .of_pure (.inr ⟨nofun, _, .head _, nofun⟩)
      · exact primary_quiet hn h

omit hn in
theorem binaryTail_quiet (prec : Nat) (left : Expr) :
    TakesQuiet [] [] (SpellsTail left) ts (binaryTail rec prec left) := by
  unfold binaryTail
  refine .peek fun k hk => ?_
  split
  · rename_i op
    split
    · exact .of_pure (.inl ⟨rfl, rfl⟩)
    · refine .skip hk rfl rfl nofun fun _ => .bind (h.binary _ _) fun right ks _ _ => ?_
      have hop : SpellsOther ([.symbol (.binary op)] ++ ks) (.binary left op right) :=
        ⟨nofun, _, .head _, nofun⟩
      exact (h.binaryTail _ _ _).weaken fun ks' y hy => .inr (hop.tail hy)
  · exact .of_pure (.inl ⟨rfl, rfl⟩)

theorem binary_quiet (prec : Nat) : TakesQuiet [] [] Spells ts (binary rec prec) := by
  unfold binary
  refine .bind (unary_quiet hn h) fun x ks _ hx => ?_
  exact (h.binaryTail prec x _).weaken fun ks' y hy => hx.tail hy

/-! ## What extends an operand -/

omit hn h in
theorem sliceOrIndex_ne_name (x : Expr) (low : Option Expr) :
    Gives (fun made => ∀ n, made.1 ≠ .name n) (sliceOrIndex rec x low) := by
  unfold sliceOrIndex
  refine .any fun b => ?_
  split
  · refine .any fun _ => .any fun high => .any fun b => ?_
    split
    · exact .any fun _ => .any fun max => .of_pure nofun
    · exact .of_pure nofun
  · exact .any fun us => .of_pure nofun

omit h in
theorem indexOrSlice_quiet (x : Expr) : TakesQuiet [] [] SpellsOther ts (indexOrSlice rec x) := by
  have htakes : ∀ zs, Takes [] zs (nested (atSymbol .colon >>= fun b =>
      if b = true then sliceOrIndex rec x none
      else expr rec >>= fun i => sliceOrIndex rec x (some i))) := fun zs =>
    .nested (.atSymbol (fun _ => sliceOrIndex_takes hn x none)
      (.bind (expr_takes hn) fun i _ => sliceOrIndex_takes hn x (some i)))
  have hname : Gives (fun made => ∀ n, made.1 ≠ .name n) (nested (atSymbol .colon >>= fun b =>
      if b = true then sliceOrIndex rec x none
      else expr rec >>= fun i => sliceOrIndex rec x (some i))) := by
    refine .nested (.any fun b => ?_)
    split
    · exact sliceOrIndex_ne_name x none
    · exact .any fun i => sliceOrIndex_ne_name x (some i)
  rw [indexOrSlice_eq]
  refine .expect_opening .square fun _ => .inside_of (htakes _) hname fun made _ _ hmade => ?_
  refine .expect_closing .square fun _ => ?_
  split
  · exact .fail _
  · exact .of_pure ⟨hmade, _, .head _, nofun⟩

omit h in
theorem call_quiet (fn : Expr) : TakesQuiet [] [] SpellsOther ts (call rec fn) := by
  unfold call
  refine .expect_opening .paren fun _ => .inside (.nested (hn _ _)) fun arguments _ _ => ?_
  exact .expect_closing .paren fun _ => .of_pure ⟨nofun, _, .head _, nofun⟩

omit h in
theorem composite_quiet (t : Option Expr) :
    TakesQuiet [] [] SpellsOther ts (composite rec t) := by
  unfold composite
  refine .expect_opening .brace fun _ => .inside (.nested (hn _ _)) fun es _ _ => ?_
  exact .expect_closing .brace fun _ => .of_pure ⟨nofun, _, .head _, nofun⟩

omit h in
theorem selectorOrAssertion_quiet (x : Expr) :
    TakesQuiet [] [.symbol .period] SpellsOther ts (selectorOrAssertion rec x) := by
  unfold selectorOrAssertion
  refine .peek fun k hk => ?_
  split
  · exact .skip hk rfl rfl nofun fun _ => .of_pure ⟨nofun, _, .head _, nofun⟩
  · refine .skip_opening .paren hk fun _ => .peek fun k hk => ?_
    split
    · rename_i ht
      obtain rfl := eq_of_beq ht
      refine .skip_inside hk rfl nofun fun _ => .pure_bind ?_
      exact .expect_closing .paren fun _ => .of_pure ⟨nofun, _, .head _, nofun⟩
    · refine .inside (hn _ _) fun t _ _ => .pure_bind ?_
      exact .expect_closing .paren fun _ => .of_pure ⟨nofun, _, .head _, nofun⟩
  · exact .unexpected _

theorem primaryTail_quiet (x : Expr) :
    TakesQuiet [] [] (SpellsTail x) ts (primaryTail rec x) := by
  have hmore : ∀ {p : Read Expr} {before zs}, TakesQuiet [] before SpellsOther zs p →
      TakesQuiet [] before (SpellsTail x) zs (p >>= fun y => rec (.primaryTail y)) := by
    intro p before zs hp
    refine hp.chain fun y ks zs hy => ?_
    exact (h.primaryTail y zs).weaken fun ks' z hz => .inr (hy.tail hz)
  unfold primaryTail
  refine .peek fun k hk => ?_
  split
  · exact .skip hk rfl rfl nofun fun _ => hmore (selectorOrAssertion_quiet hn x)
  · exact hmore (indexOrSlice_quiet hn x)
  · exact hmore (call_quiet hn x)
  · refine .level fun l => ?_
    split
    · exact hmore (composite_quiet hn _)
    · exact .of_pure (.inl ⟨rfl, rfl⟩)
  · exact .of_pure (.inl ⟨rfl, rfl⟩)

/-! ## Lists of expressions -/

theorem exprs_listed : Spans Listed ts (exprs rec) := by
  unfold exprs
  refine Spans.bind (binary_quiet hn h 1) fun x ks _ hx => ?_
  refine Spans.bind (h.exprsTail _) fun xs ks' _ hxs => .of_pure ?_
  obtain ⟨rfl, rfl⟩ | ⟨ks'', rfl, hlisted⟩ := hxs
  · simpa using Listed.one hx.1 hx.2
  · simpa using Listed.cons hx.1 hx.2 hlisted

theorem exprsTail_listed : Spans ListedTail ts (exprsTail rec) := by
  unfold exprsTail
  refine .atSymbol (fun hk => .skip_of (fun he => ?_) ?_) (.of_pure (.inl ⟨rfl, rfl⟩))
  · rw [hk] at he
    cases he
  · refine (exprs_listed hn h).mono fun ks xs hlisted => .inr ⟨ks, ?_, hlisted⟩
    rw [hk]

theorem step_spell : Phrases.Spell (Phrase.step rec) where
  type _ := type_quiet hn h
  unary _ := unary_quiet hn h
  binary prec _ := binary_quiet hn h prec
  binaryTail prec x _ := binaryTail_quiet h prec x
  primaryTail x _ := primaryTail_quiet hn h x
  exprsTail _ := exprsTail_listed hn h

end

end Step

/-- However deep the phrases nest, types and expressions are quiet. -/
theorem read_spell (depth : Nat) : Phrases.Spell (Phrase.read depth) := by
  induction depth with
  | zero => constructor <;> intros <;> exact Spans.fail _
  | succ depth ih => exact step_spell (read_nest depth) ih

end Syntax

end GoRepl
