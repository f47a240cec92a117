import GoRepl.Proofs.Syntax.BeforeBlock
import GoRepl.Proofs.Syntax.Nodes
import GoRepl.Proofs.Syntax.Spans
import GoRepl.Proofs.Token.Words

/-! # The words of a tree

A tree keeps all names and literals that it was read from, in order.

* `Node.front`, `Node.back`, `Node.words`: the words of a tree from left to right.
* `Keeps`: the words of what a reader gives are those of the tokens that it takes.
* `Keeps.chain` and the lemmas behind it: one for each way to compose readers.
* `Phrase.Stands`, `Phrases.Keep`: all readers of phrases keep the words.
* `type_keeps` and the lemmas around it: the grammar of types.
-/

namespace GoRepl.Syntax

open Read Grammar

namespace Node

/-- The words of a node itself in front of all that stands in it. -/
def front : Node → List Word
  | expr (.name n) => [.name n]
  | expr (.literal t) => [.literal t]
  | field (.mk names _) => names.map .name
  | item (.method n _) => [.name n]
  | stmt (.branch _ label) => label.toList.map .name
  | stmt (.labeled label _) => [.name label]
  | valueSpec (.mk names _ _) => names.map .name
  | typeSpec (.mk n _ _) => [.name n]
  | _ => []

/-- The words of a node itself behind all that stands in it. -/
def back : Node → List Word
  | expr (.selector _ f) => [.name f]
  | _ => []

theorem sizeOf_lt_of_mem_children {n c : Node} (h : c ∈ n.children) : sizeOf c < sizeOf n := by
  have hmem : ∀ {α : Type} [SizeOf α] {a : α} {as : List α}, a ∈ as → sizeOf a < sizeOf as :=
    List.sizeOf_lt_of_mem
  cases n with
  | expr x => cases x <;> grind [children]
  | field f => cases f; grind [children]
  | signature sig => cases sig; grind [children]
  | item i => cases i <;> grind [children]
  | simple s => cases s <;> grind [children]
  | stmt s => cases s <;> grind [children]
  | valueSpec spec => cases spec; grind [children]
  | typeSpec spec => cases spec; grind [children]
  | caseClause cl =>
    obtain ⟨exprs, body⟩ := cl
    cases exprs <;> grind [children]
  | commClause cl => cases cl; grind [children]

/-- The words of a tree, from left to right. -/
def words (n : Node) : List Word :=
  n.front ++ n.children.attach.flatMap (fun c => words c.1) ++ n.back
termination_by sizeOf n
decreasing_by exact sizeOf_lt_of_mem_children c.2

/-- The words of trees, one behind the other. -/
def wordsOf (ns : List Node) : List Word := ns.flatMap words

/-- What stands in a node is between the words of the node itself. -/
def parts (n : Node) : List Word := n.front ++ wordsOf n.children ++ n.back

theorem words_eq (n : Node) : n.words = n.parts := by
  rw [words, parts, wordsOf, List.flatMap_subtype fun _ _ => rfl, List.unattach_attach]

@[simp] theorem wordsOf_nil : wordsOf [] = [] := rfl

@[simp] theorem wordsOf_cons (n : Node) (ns : List Node) :
    wordsOf (n :: ns) = n.words ++ wordsOf ns := rfl

@[simp] theorem wordsOf_append (ns ns' : List Node) :
    wordsOf (ns ++ ns') = wordsOf ns ++ wordsOf ns' := List.flatMap_append

end Node

open Syntax.Node (wordsOf)

/-- A scan over whatever `p` takes from `ts` goes from `outer` to `inner`, and the words of what `p`
gives are those in `before` and those that it takes. -/
def Keeps {α : Type} (outer inner : Scan) (before : List Word) (words : α → List Word) :
    List Token → Read α → Prop :=
  Spans fun ks a => ∃ told, outer.Tells inner ks told ∧ words a = before ++ told

/-- The brackets that `p` opens it closes. -/
abbrev KeepsIn {α : Type} (o : List Bool) : List Word → (α → List Word) → List Token → Read α →
    Prop :=
  Keeps ⟨false, o⟩ ⟨false, o⟩

namespace Keeps

variable {α β : Type} {outer inner σ : Scan} {o : List Bool} {before told : List Word}
  {words : α → List Word} {given : β → List Word} {ts : List Token} {sym : Symbol} {k : Kind}

theorem of_pure {a : α} (h : words a = before) : Keeps σ σ before words ts (pure a) :=
  Spans.of_pure ⟨[], .nil, by rw [h, List.append_nil]⟩

/-- A node is built of what has been read. -/
theorem built {a : α} (n : Node) (hn : words a = n.words) (h : n.parts = before) :
    Keeps σ σ before words ts (pure a) :=
  of_pure (hn.trans (n.words_eq.trans h))

/-- A reader goes on with the words of another one. -/
theorem chain {p : Read β} {f : β → Read α} (hp : Keeps outer σ before given ts p)
    (hf : ∀ b zs, Keeps σ inner (given b) words zs (f b)) :
    Keeps outer inner before words ts (p >>= f) := by
  refine Spans.bind hp fun b ks zs hb => (hf b zs).mono fun ks' a ha => ?_
  obtain ⟨told, htells, hgiven⟩ := hb
  obtain ⟨told', htells', hwords⟩ := ha
  refine ⟨told ++ told', htells.append htells', ?_⟩
  rw [hwords, hgiven, List.append_assoc]

theorem cast {before' : List Word} {p : Read α} (h : Keeps outer inner before words ts p)
    (hbefore : before = before') : Keeps outer inner before' words ts p :=
  hbefore ▸ h

/-- Words in front stay there. -/
theorem frame {p : Read β} (hp : Keeps outer inner before given ts p) (front : List Word) :
    Keeps outer inner (front ++ before) (fun b => front ++ given b) ts p := by
  refine hp.mono fun ks b hb => ?_
  obtain ⟨told, htells, hgiven⟩ := hb
  refine ⟨told, htells, ?_⟩
  simp only [hgiven, List.append_assoc]

/-- Behind a part with words of its own. -/
theorem bind {p : Read β} {f : β → Read α} (hp : Keeps outer σ [] given ts p)
    (hf : ∀ b zs, Keeps σ inner (before ++ given b) words zs (f b)) :
    Keeps outer inner before words ts (p >>= f) :=
  ((hp.frame before).cast (List.append_nil _)).chain hf

theorem fail (f : SyntaxFault) : Keeps outer inner before words ts (Read.fail f) := Spans.fail f

theorem unexpected (w : Wanted) : Keeps outer inner before words ts (Read.unexpected w) :=
  Spans.unexpected w

theorem fail_bind (f : SyntaxFault) (q : β → Read α) :
    Keeps outer inner before words ts (Read.fail f >>= q) := Spans.fail_bind f q

theorem unexpected_bind (w : Wanted) (q : β → Read α) :
    Keeps outer inner before words ts (Read.unexpected w >>= q) := Spans.unexpected_bind w q

theorem pure_bind {b : β} {f : β → Read α} (h : Keeps outer inner before words ts (f b)) :
    Keeps outer inner before words ts (pure b >>= f) := h

/-! ## Looking at tokens -/

theorem peek {f : Kind → Read α}
    (h : ∀ k, headKind ts = k → Keeps outer inner before words ts (f k)) :
    Keeps outer inner before words ts (peek >>= f) := Spans.peek h

theorem peekSecond {f : Kind → Read α}
    (h : ∀ k, headKind ts.tail = k → Keeps outer inner before words ts (f k)) :
    Keeps outer inner before words ts (peekSecond >>= f) := Spans.peekSecond h

theorem level {f : Int → Read α} (h : ∀ l, Keeps outer inner before words ts (f l)) :
    Keeps outer inner before words ts (level >>= f) := Spans.level h

theorem atSymbol {f : Bool → Read α}
    (htrue : headKind ts = .symbol sym → Keeps outer inner before words ts (f true))
    (hfalse : Keeps outer inner before words ts (f false)) :
    Keeps outer inner before words ts (atSymbol sym >>= f) := Spans.atSymbol htrue hfalse

theorem atSemicolon {f : Bool → Read α}
    (htrue : (headKind ts).isSemicolon = true → Keeps outer inner before words ts (f true))
    (hfalse : Keeps outer inner before words ts (f false)) :
    Keeps outer inner before words ts (atSemicolon >>= f) := Spans.atSemicolon htrue hfalse

theorem atListEnd {f : Bool → Read α} (h : ∀ b, Keeps outer inner before words ts (f b)) :
    Keeps outer inner before words ts (atListEnd sym >>= f) := Spans.atListEnd h

theorem nested {p : Read α} (h : Keeps outer inner before words ts p) :
    Keeps outer inner before words ts (nested p) := Spans.nested h

theorem header {p : Read α} (h : Keeps outer inner before words ts p) :
    Keeps outer inner before words ts (header p) := Spans.header h

/-! ## Taking tokens -/

/-- A token is taken in front of others. -/
theorem skip_of {f : Unit → Read α} (htells : Scan.Tells outer σ [headKind ts] told)
    (hend : headKind ts = .eof → outer.behindStruct = false)
    (h : Keeps σ inner (before ++ told) words ts.tail (f ())) :
    Keeps outer inner before words ts (skip >>= f) := by
  refine Spans.skip_of (fun he ks a ha => ?_) (h.mono fun ks a ha => ?_)
  · obtain ⟨told', ⟨hrun, hwords⟩, ha⟩ := ha
    rw [List.foldl_cons, Scan.next_eof (hend he)] at hrun
    rw [Scan.words, Scan.next_eof (hend he)] at hwords
    exact ⟨told', ⟨hrun, hwords⟩, ha⟩
  · obtain ⟨told', htells', hwords⟩ := ha
    refine ⟨told ++ told', htells.append htells', ?_⟩
    rw [hwords, List.append_assoc]

theorem skip_untold {f : Unit → Read α} (htells : Scan.Tells ⟨false, o⟩ σ [headKind ts] [])
    (h : Keeps σ inner before words ts.tail (f ())) :
    Keeps ⟨false, o⟩ inner before words ts (skip >>= f) :=
  skip_of htells (fun _ => rfl) (by rwa [List.append_nil])

/-- Any token that tells nothing. -/
theorem skip_tail {f : Unit → Read α} (hs : (headKind ts).isSilent = true)
    (h : Keeps ⟨false, o⟩ inner before words ts.tail (f ())) :
    Keeps ⟨false, o⟩ inner before words ts (skip >>= f) :=
  skip_untold (.silent hs) h

theorem skip {f : Unit → Read α} (hk : headKind ts = k) (hs : k.isSilent = true)
    (h : ∀ zs, Keeps ⟨false, o⟩ inner before words zs (f ())) :
    Keeps ⟨false, o⟩ inner before words ts (skip >>= f) :=
  skip_tail (hk ▸ hs) (h _)

theorem skip_name {f : Unit → Read α} {n : String} (hk : headKind ts = .name n)
    (h : ∀ zs, Keeps ⟨false, o⟩ inner (before ++ [.name n]) words zs (f ())) :
    Keeps ⟨false, o⟩ inner before words ts (Read.skip >>= f) :=
  skip_of (hk ▸ .name n) (fun _ => rfl) (h _)

theorem skip_literal {f : Unit → Read α} {cls : LiteralClass} {t : String}
    (hk : headKind ts = .literal cls t) (ho : o.head? ≠ some true)
    (h : ∀ zs, Keeps ⟨false, o⟩ inner (before ++ [.literal t]) words zs (f ())) :
    Keeps ⟨false, o⟩ inner before words ts (Read.skip >>= f) :=
  skip_of (hk ▸ .literal ho cls t) (fun _ => rfl) (h _)

theorem skip_tag {f : Unit → Read α} {t : String} (hk : headKind ts = .literal .string t)
    (ho : o.head? = some true) (h : ∀ zs, Keeps ⟨false, o⟩ inner before words zs (f ())) :
    Keeps ⟨false, o⟩ inner before words ts (Read.skip >>= f) := by
  have htells := Scan.Tells.tag ho t
  exact skip_untold (hk ▸ htells) (h _)

theorem skip_opening (b : Bracket) {f : Unit → Read α} (hk : headKind ts = .symbol b.opening)
    (h : ∀ zs, Keeps ⟨false, false :: o⟩ inner before words zs (f ())) :
    Keeps ⟨false, o⟩ inner before words ts (Read.skip >>= f) := by
  have htells := Scan.Tells.opening (o := o) b
  exact skip_untold (hk ▸ htells) (h _)

theorem skip_closing (b : Bracket) {d : Bool} {f : Unit → Read α}
    (hk : headKind ts = .symbol b.closing)
    (h : ∀ zs, Keeps ⟨false, o⟩ inner before words zs (f ())) :
    Keeps ⟨false, d :: o⟩ inner before words ts (Read.skip >>= f) := by
  have htells := Scan.Tells.closing (o := o) b d
  exact skip_untold (hk ▸ htells) (h _)

theorem expect {f : Unit → Read α} (hs : (Kind.symbol sym).isSilent = true)
    (h : ∀ zs, Keeps ⟨false, o⟩ inner before words zs (f ())) :
    Keeps ⟨false, o⟩ inner before words ts (expect sym >>= f) :=
  Spans.expect_of fun hk => skip hk hs h

theorem expect_opening (b : Bracket) {f : Unit → Read α}
    (h : ∀ zs, Keeps ⟨false, false :: o⟩ inner before words zs (f ())) :
    Keeps ⟨false, o⟩ inner before words ts (Read.expect b.opening >>= f) :=
  Spans.expect_of fun hk => skip_opening b hk h

theorem expect_closing (b : Bracket) {d : Bool} {f : Unit → Read α}
    (h : ∀ zs, Keeps ⟨false, o⟩ inner before words zs (f ())) :
    Keeps ⟨false, d :: o⟩ inner before words ts (Read.expect b.closing >>= f) :=
  Spans.expect_of fun hk => skip_closing b hk h

/-- Behind the keyword of a struct type. -/
theorem expect_structBrace {f : Unit → Read α}
    (h : ∀ zs, Keeps ⟨false, true :: o⟩ inner before words zs (f ())) :
    Keeps ⟨true, o⟩ inner before words ts (Read.expect .lbrace >>= f) := by
  have htells := Scan.Tells.structBrace (o := o)
  refine Spans.expect_of fun hk => skip_of (hk ▸ htells) (fun he => ?_) ?_
  · rw [hk] at he
    cases he
  · rw [List.append_nil]
    exact h _

theorem expectKeyword {w : Keyword} {f : Unit → Read α} (hs : (Kind.keyword w).isSilent = true)
    (h : ∀ zs, Keeps ⟨false, o⟩ inner before words zs (f ())) :
    Keeps ⟨false, o⟩ inner before words ts (expectKeyword w >>= f) :=
  Spans.expectKeyword_of fun hk => skip hk hs h

theorem expectStruct {f : Unit → Read α}
    (h : ∀ zs, Keeps ⟨true, o⟩ inner before words zs (f ())) :
    Keeps ⟨false, o⟩ inner before words ts (Read.expectKeyword .structKw >>= f) :=
  Spans.expectKeyword_of fun hk => skip_untold (hk ▸ .structKeyword) (h _)

theorem expectName {f : String → Read α}
    (h : ∀ n zs, Keeps ⟨false, o⟩ inner (before ++ [.name n]) words zs (f n)) :
    Keeps ⟨false, o⟩ inner before words ts (expectName >>= f) :=
  Spans.expectName_of fun n hk => skip_name hk fun zs => h n zs

theorem statementEnd : KeepsIn o [] (fun _ => []) ts statementEnd := by
  unfold Read.statementEnd
  refine .peek fun k hk => ?_
  split
  · exact skip hk rfl fun _ => .of_pure rfl
  · exact skip hk rfl fun _ => .of_pure rfl
  · exact of_pure rfl
  · exact of_pure rfl
  · exact of_pure rfl
  · exact .unexpected _

end Keeps

/-! ## Phrases -/

/-- Between which open brackets a phrase may stand: only a field may stand directly in the braces of
a struct type, and its names and its type. -/
def Phrase.Stands (o : List Bool) : {α : Type} → Phrase α → Prop
  | _, fields => o.head? = some true
  | _, type | _, namesTail => True
  | _, _ => o.head? ≠ some true

theorem untagged {o : List Bool} : (false :: o).head? ≠ some true := nofun

/-- The words of what a phrase extends. -/
def Phrase.before : {α : Type} → Phrase α → List Word
  | _, binaryTail _ x | _, primaryTail x => (Node.expr x).words
  | _, _ => []

/-- The words of what a phrase gives. -/
def Phrase.words : {α : Type} → Phrase α → α → List Word
  | _, binary _ | _, binaryTail _ _ | _, unary | _, primaryTail _ | _, type => fun x =>
    (Node.expr x).words
  | _, exprsTail | _, elems | _, typesTail | _, typeArgsTail | _, unionTail => fun xs =>
    wordsOf (xs.map .expr)
  | _, args => fun arguments => wordsOf (arguments.1.map .expr)
  | _, namesTail => fun ns => ns.map .name
  | _, fields | _, params => fun fs => wordsOf (fs.map .field)
  | _, interfaceItems => fun is => wordsOf (is.map .item)
  | _, stmt | _, conditional => fun s => (Node.stmt s).words
  | _, stmts => fun ss => wordsOf (ss.map .stmt)
  | _, caseClauses => fun cs => wordsOf (cs.map .caseClause)
  | _, commClauses => fun cs => wordsOf (cs.map .commClause)
  | _, valueSpecs _ _ => fun ss => wordsOf (ss.map .valueSpec)
  | _, typeSpecs => fun ss => wordsOf (ss.map .typeSpec)

/-- The readers of all phrases keep the words. -/
def Phrases.Keep (rec : Phrases) : Prop := ∀ {α : Type} (ph : Phrase α) (o : List Bool)
  (ts : List Token), ph.Stands o → KeepsIn o ph.before ph.words ts (rec ph)

/-- A reader of expressions. -/
abbrev KeepsExpr (o : List Bool) (before : List Word) : List Token → Read Expr → Prop :=
  KeepsIn o before fun x => (Node.expr x).words

attribute [local simp] Node.parts Node.front Node.back Node.children Phrase.words

/-! ## Types -/

section Types

variable {rec : Phrases} {o : List Bool} {ts : List Token} (h : Phrases.Keep rec)

include h

theorem Phrases.Keep.type : KeepsExpr o [] ts (rec .type) := h .type o ts trivial

theorem names_keeps :
    KeepsIn o [] (fun ns => ns.map .name) ts (names rec) := by
  unfold names
  refine .expectName fun n _ => ?_
  exact .bind (h .namesTail o _ trivial) fun ns _ => .of_pure rfl

theorem namesTail_keeps :
    KeepsIn o [] (fun ns => ns.map .name) ts (namesTail rec) := by
  unfold namesTail
  refine .peek fun k hk => ?_
  split
  · exact .skip hk rfl fun _ => names_keeps h
  · exact .of_pure rfl

theorem paramList_keeps :
    KeepsIn o [] (fun fs => wordsOf (fs.map .field)) ts (paramList rec) := by
  unfold paramList
  refine .expect_opening .paren fun _ => .bind (h .params _ _ untagged) fun fs _ => ?_
  exact .expect_closing .paren fun _ => .of_pure rfl

theorem signature_keeps :
    KeepsIn o [] (fun s => (Node.signature s).words) ts (signature rec) := by
  unfold signature
  refine .bind (paramList_keeps h) fun ps zs => .peek fun k _ => ?_
  split
  · exact .bind (paramList_keeps h) fun rs _ => .built _ rfl (by simp)
  · split
    · refine .bind h.type fun t _ => .built _ rfl ?_
      simp [Node.words_eq (.field _)]
    · exact .built _ rfl (by simp)

theorem structType_keeps : KeepsExpr o [] ts (structType rec) := by
  unfold structType
  refine .expectStruct fun _ => .expect_structBrace fun _ => ?_
  refine .bind (h .fields _ _ rfl) fun fs _ => ?_
  exact .expect_closing .brace fun _ => .built _ rfl (by simp)

theorem interfaceType_keeps : KeepsExpr o [] ts (interfaceType rec) := by
  unfold interfaceType
  refine .expectKeyword rfl fun _ => .expect_opening .brace fun _ => ?_
  refine .bind (h .interfaceItems _ _ untagged) fun is _ => ?_
  exact .expect_closing .brace fun _ => .built _ rfl (by simp)

/-- Types between brackets. -/
theorem types_keeps (ho : o.head? ≠ some true) :
    KeepsIn o [] (fun us => wordsOf (us.map .expr)) ts (types rec) := by
  unfold types
  refine .bind h.type fun t _ => .bind (h .typesTail _ _ ho) fun us _ => ?_
  exact .of_pure (by simp)

theorem typesTail_keeps (ho : o.head? ≠ some true) :
    KeepsIn o [] (fun us => wordsOf (us.map .expr)) ts (typesTail rec) := by
  unfold typesTail
  refine .atSymbol (fun hk => ?_) (.of_pure rfl)
  exact .skip hk rfl fun _ => types_keeps h ho

theorem typeArgsTail_keeps (ho : o.head? ≠ some true) :
    KeepsIn o [] (fun us => wordsOf (us.map .expr)) ts (typeArgsTail rec) := by
  unfold typeArgsTail
  refine .atSymbol (fun hk => .skip hk rfl fun _ => ?_) (.of_pure rfl)
  refine .atSymbol (fun _ => .of_pure rfl) ?_
  refine .bind h.type fun t _ => .bind (h .typeArgsTail _ _ ho) fun us _ => ?_
  exact .of_pure (by simp)

theorem typeArguments_keeps (base : Expr) :
    KeepsExpr o (Node.expr base).words ts (typeArguments rec base) := by
  unfold typeArguments
  refine .peekSecond fun second _ => .atSymbol (fun hk => ?_) (.of_pure rfl)
  split
  · refine .skip_opening .square hk fun _ => .bind (types_keeps h untagged) fun us _ => ?_
    exact .expect_closing .square fun _ => .built _ rfl (by simp)
  · exact .of_pure rfl

theorem namedTail_keeps (n : String) : KeepsExpr o [.name n] ts (namedTail rec n) := by
  have hname : (Node.expr (.name n)).words = [.name n] := by simp [Node.words_eq]
  rw [namedTail_eq]
  refine .atSymbol (fun hk => ?_) ((typeArguments_keeps h _).cast hname)
  refine .skip hk rfl fun _ => .expectName fun f _ => (typeArguments_keeps h _).cast ?_
  simp [Node.words_eq (.expr (.selector _ _)), hname]

theorem arrayTail_keeps :
    Keeps ⟨false, false :: o⟩ ⟨false, o⟩ [] (fun x => (Node.expr x).words) ts (arrayTail rec) := by
  unfold arrayTail
  refine .peek fun k hk => ?_
  extract_lets elem
  have helem : ∀ (len : Option Expr) zs, Keeps ⟨false, false :: o⟩ ⟨false, o⟩
      (wordsOf (len.toList.map .expr)) (fun x => (Node.expr x).words) zs (elem len) := by
    intro len zs
    exact .expect_closing .square fun _ => .bind h.type fun t _ => .built _ rfl (by simp)
  split
  · exact .pure_bind (helem none _)
  · refine .skip hk rfl fun _ => .pure_bind ((helem (some (.ellipsis none)) _).cast ?_)
    simp [Node.words_eq]
  · refine .bind (.nested (h (.binary 1) _ _ untagged)) fun n _ => ?_
    exact .pure_bind ((helem (some n) _).cast (by simp))

theorem type_keeps : KeepsExpr o [] ts (type rec) := by
  unfold type
  refine .peek fun k hk => ?_
  split
  · exact .skip_name hk fun _ => namedTail_keeps h _
  · exact .skip_opening .square hk fun _ => arrayTail_keeps h
  · exact structType_keeps h
  · exact interfaceType_keeps h
  · exact .skip hk rfl fun _ => .bind h.type fun t _ => .built _ rfl (by simp)
  · exact .skip hk rfl fun _ => .bind (signature_keeps h) fun s _ => .built _ rfl (by simp)
  · refine .skip hk rfl fun _ => .expect_opening .square fun _ => .bind h.type fun k _ => ?_
    refine .expect_closing .square fun _ => .bind h.type fun v _ => .built _ rfl ?_
    simp
  · refine .skip hk rfl fun _ => .atSymbol (fun ha => .skip ha rfl fun _ => ?_) ?_
    · exact .pure_bind (.bind h.type fun t _ => .built _ rfl (by simp))
    · exact .pure_bind (.bind h.type fun t _ => .built _ rfl (by simp))
  · refine .skip hk rfl fun _ => .expectKeyword rfl fun _ => .bind h.type fun t _ => ?_
    exact .built _ rfl (by simp)
  · refine .skip_opening .paren hk fun _ => .bind h.type fun t _ => ?_
    exact .expect_closing .paren fun _ => .built _ rfl (by simp)
  · exact .unexpected _

theorem params_keeps (ho : o.head? ≠ some true) :
    KeepsIn o [] (fun fs => wordsOf (fs.map .field)) ts (params rec) := by
  unfold params
  refine .atListEnd fun b => ?_
  split
  · exact .of_pure rfl
  refine .peek fun k _ => ?_
  extract_lets named typed
  have htyped : ∀ (ns : List String) zs, KeepsIn o (ns.map .name)
      (fun fs => wordsOf (fs.map .field)) zs (typed ns) := fun ns zs => by
    have hlast : ∀ t zs, KeepsIn o (ns.map .name ++ (Node.expr t).words)
        (fun fs => wordsOf (fs.map .field)) zs (atSymbol .comma >>= fun b =>
          if b = true then skip >>= fun _ => rec .params >>= fun fs => pure (.mk ns t :: fs)
          else pure [.mk ns t]) := fun t zs => by
      refine .atSymbol (fun hc => ?_) (.of_pure (by simp [Node.words_eq (.field _)]))
      refine .skip hc rfl fun _ => .bind (h .params _ _ ho) fun fs _ => .of_pure ?_
      simp [Node.words_eq (.field _)]
    refine .atSymbol (fun he => .skip he rfl fun _ => ?_) (.bind (type_keeps h) fun t _ => ?_)
    · refine .bind (type_keeps h) fun t _ => .pure_bind ((hlast _ _).cast ?_)
      simp [Node.words_eq (.expr (.ellipsis _))]
    · exact hlast t _
  refine .peekSecond fun second _ => ?_
  split
  · exact .expectName fun n _ => .pure_bind (htyped [n] _)
  · exact .pure_bind (htyped [] _)

/-- A field stands directly in the braces of its struct type, and so does its tag. -/
theorem field_keeps (ho : o.head? = some true) :
    KeepsIn o [] (fun f => (Node.field f).words) ts (field rec) := by
  unfold field
  refine .peek fun k _ => ?_
  extract_lets typed named
  have htyped : ∀ (ns : List String) zs, KeepsIn o (ns.map .name)
      (fun f => (Node.field f).words) zs (typed ns) := fun ns zs => by
    refine .bind (type_keeps h) fun t _ => .peek fun k hk => ?_
    split
    · exact .skip_tag hk ho fun _ => .built _ rfl (by simp)
    · exact .built (.field (.mk ns t)) rfl (by simp)
  have hnamed : ∀ embedded zs, KeepsIn o [] (fun f => (Node.field f).words) zs
      (named embedded) := fun embedded zs => by
    simp only [named]
    split
    · exact .pure_bind (htyped [] _)
    · exact .bind (names_keeps h) fun ns _ => htyped ns _
  split
  · exact .pure_bind (hnamed true _)
  · exact .peekSecond fun second _ => .pure_bind (hnamed _ _)
  · exact .unexpected_bind _ _

theorem fields_keeps (ho : o.head? = some true) :
    KeepsIn o [] (fun fs => wordsOf (fs.map .field)) ts (fields rec) := by
  unfold fields
  refine .atListEnd fun b => ?_
  split
  · exact .of_pure rfl
  · refine .bind (field_keeps h ho) fun f _ => .bind .statementEnd fun _ _ => ?_
    exact .bind (h .fields _ _ ho) fun fs _ => .of_pure (by simp)

theorem unionTerm_keeps : KeepsExpr o [] ts (unionTerm rec) := by
  unfold unionTerm
  refine .atSymbol (fun hk => ?_) (type_keeps h)
  exact .skip hk rfl fun _ => .bind (type_keeps h) fun t _ => .built _ rfl (by simp)

theorem unionTail_keeps (ho : o.head? ≠ some true) :
    KeepsIn o [] (fun us => wordsOf (us.map .expr)) ts (unionTail rec) := by
  unfold unionTail
  refine .atSymbol (fun hk => .skip hk rfl fun _ => ?_) (.of_pure rfl)
  refine .bind (unionTerm_keeps h) fun t _ => .bind (h .unionTail _ _ ho) fun us _ => ?_
  exact .of_pure (by simp)

theorem interfaceItem_keeps (ho : o.head? ≠ some true) :
    KeepsIn o [] (fun i => (Node.item i).words) ts (interfaceItem rec) := by
  unfold interfaceItem
  refine .peekSecond fun second _ => .peek fun k hk => ?_
  split
  · refine .skip_name hk fun _ => .bind (signature_keeps h) fun s _ => .built _ rfl ?_
    simp
  · refine .bind (unionTerm_keeps h) fun t _ => .bind (h .unionTail _ _ ho) fun us _ => ?_
    exact .built _ rfl (by simp)

theorem interfaceItems_keeps (ho : o.head? ≠ some true) :
    KeepsIn o [] (fun is => wordsOf (is.map .item)) ts (interfaceItems rec) := by
  unfold interfaceItems
  refine .atListEnd fun b => ?_
  split
  · exact .of_pure rfl
  · refine .bind (interfaceItem_keeps h ho) fun i _ => .bind .statementEnd fun _ _ => ?_
    exact .bind (h .interfaceItems _ _ ho) fun is _ => .of_pure (by simp)

end Types

end GoRepl.Syntax
