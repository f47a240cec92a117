import GoRepl.Proofs.Fragment.Nesting
import GoRepl.Proofs.Syntax.Statement
import GoRepl.Proofs.Token.FirstKind

/-! # The names that a fragment sets

A fragment declares and assigns no names but those among its tokens.

* `Named P ts`: the names among the tokens satisfy `P`.
* `Yields`: what a reader gives when the names among its tokens do.
* `Phrase.Names`: what that is for each phrase.
* `read_names`: the readers of all phrases give it.
* `Shape.isName_of_sets`: what a fragment sets are names.
* `Shape.imports_of_firstKind?`: a fragment that starts with the word `import` is an import.
-/

namespace GoRepl

/-- The names that a fragment of some shape declares or assigns. -/
def Shape.sets (shape : Shape) : List String := shape.declared ++ shape.assigned

namespace Syntax

open Read Grammar

/-- The names among the tokens satisfy `P`. -/
def Named (P : String → Prop) (ts : List Token) : Prop := ∀ t ∈ ts, ∀ n, t.kind = .name n → P n

/-- Where the names among the tokens satisfy `P`, what `p` reads satisfies `post`, and the names
among the tokens that it leaves satisfy `P`. -/
def Yields {α : Type} (P : String → Prop) (post : α → Prop) (p : Read α) : Prop :=
  ∀ s a s', Named P s.tokens → p s = .ok (a, s') → post a ∧ Named P s'.tokens

namespace Yields

variable {α β : Type} {P : String → Prop} {post : α → Prop} {post' : β → Prop}

theorem of_pure {a : α} (h : post a) : Yields P post (pure a) := by
  intro s a' s' hs hp
  cases hp
  exact ⟨h, hs⟩

theorem fail (f : SyntaxFault) : Yields P post (Read.fail f) := by
  intro s a s' hs hp
  cases hp

theorem unexpected (w : Wanted) : Yields P post (Read.unexpected w) := fail _

/-- Of a reader of which nothing else is known, what it leaves is an end of its tokens. -/
theorem of_takes {bs : List Bracket} {p : Read α} (h : ∀ ts, Takes bs ts p) :
    Yields P (fun _ => True) p := by
  intro s a s' hs hp
  obtain ⟨taken, htaken, -⟩ := h s.tokens s.level a s' hp
  refine ⟨trivial, fun t ht => hs t ?_⟩
  rw [htaken]
  exact List.mem_append_right _ ht

theorem fail_bind (f : SyntaxFault) (k : α → Read β) : Yields P post' (Read.fail f >>= k) := by
  intro s a s' hs hp
  cases hp

theorem bind {Q : α → Prop} {p : Read α} {f : α → Read β} (hp : Yields P Q p)
    (hf : ∀ a, Q a → Yields P post' (f a)) : Yields P post' (p >>= f) := by
  intro s b s' hs h
  obtain ⟨a, s₁, ha, hb⟩ := bind_eq_ok.mp h
  obtain ⟨hpost, hs₁⟩ := hp s a s₁ hs ha
  exact hf a hpost s₁ b s' hs₁ hb

theorem mono {p : Read α} {post₁ : α → Prop} (hp : Yields P post p) (h : ∀ a, post a → post₁ a) :
    Yields P post₁ p := by
  intro s a s' hs ha
  exact (hp s a s' hs ha).imp_left (h a)

theorem peek {f : Kind → Read α} (h : ∀ k, (∀ n, k = .name n → P n) → Yields P post (f k)) :
    Yields P post (peek >>= f) := by
  intro s a s' hs ha
  refine h (headKind s.tokens) (fun n hn => ?_) s a s' hs ha
  cases hts : s.tokens with
  | nil =>
    rw [hts] at hn
    cases hn
  | cons t ts =>
    rw [hts] at hn hs
    exact hs t (.head _) n hn

theorem peekSecond {f : Kind → Read α} (h : ∀ k, Yields P post (f k)) :
    Yields P post (peekSecond >>= f) := fun s => h _ s

theorem level {f : Int → Read α} (h : ∀ l, Yields P post (f l)) : Yields P post (level >>= f) :=
  fun s => h s.level s

theorem atSymbol {sym : Symbol} {f : Bool → Read α} (h : ∀ b, Yields P post (f b)) :
    Yields P post (atSymbol sym >>= f) := fun s => h _ s

theorem atListEnd {sym : Symbol} {f : Bool → Read α} (h : ∀ b, Yields P post (f b)) :
    Yields P post (atListEnd sym >>= f) := fun s => h _ s

theorem skip {f : Unit → Read α} (h : Yields P post (f ())) : Yields P post (skip >>= f) := by
  intro s a s' hs ha
  refine h { s with tokens := s.tokens.tail } a s' (fun t ht => ?_) ha
  exact hs t (List.mem_of_mem_tail ht)

theorem expect {sym : Symbol} {f : Unit → Read α} (h : Yields P post (f ())) :
    Yields P post (expect sym >>= f) := by
  unfold Read.expect
  rw [bind_assoc]
  refine atSymbol fun b => ?_
  split
  · exact skip h
  · exact fun _ _ _ _ ha => nomatch ha

theorem expectName {f : String → Read α} (h : ∀ n, P n → Yields P post (f n)) :
    Yields P post (expectName >>= f) := by
  unfold Read.expectName
  rw [bind_assoc]
  refine peek fun k hk => ?_
  split
  · rw [bind_assoc]
    exact skip (h _ (hk _ rfl))
  · exact fun _ _ _ _ ha => nomatch ha

theorem expectKeyword {w : Keyword} {f : Unit → Read α} (h : Yields P post (f ())) :
    Yields P post (expectKeyword w >>= f) := by
  unfold Read.expectKeyword
  rw [bind_assoc]
  refine peek fun k _ => ?_
  split
  · exact skip h
  · exact fun _ _ _ _ ha => nomatch ha

theorem nested {p : Read α} (h : Yields P post p) : Yields P post (nested p) := by
  intro s a s' hs ha
  obtain ⟨s₁, hp, rfl⟩ := nested_eq_ok.mp ha
  exact h { s with level := s.level + 1 } a s₁ hs hp

/-- The value of a reader is not looked at. -/
theorem behind {bs : List Bracket} {p : Read α} {f : α → Read β} (hp : ∀ ts, Takes bs ts p)
    (hf : ∀ a, Yields P post' (f a)) : Yields P post' (p >>= f) :=
  bind (of_takes hp) fun a _ => hf a

end Yields

/-! ## The phrases -/

/-- If the expression is a name, that satisfies `P`. -/
def NameIs (P : String → Prop) (x : Expr) : Prop := ∀ n, x = .name n → P n

/-- What is known of the value of a phrase where the names among the tokens satisfy `P`. -/
def Phrase.Names (P : String → Prop) : {α : Type} → Phrase α → α → Prop
  | _, binary _, x | _, unary, x => NameIs P x
  | _, binaryTail _ left, x | _, primaryTail left, x => NameIs P left → NameIs P x
  | _, exprsTail, xs => ∀ x ∈ xs, NameIs P x
  | _, namesTail, ns => ∀ n ∈ ns, P n
  | _, valueSpecs .., specs => ∀ spec ∈ specs, ∀ n ∈ spec.names, P n
  | _, stmt, s => ∀ n ∈ (Shape.ofStmt s).sets, P n
  | _, _, _ => True

/-- The readers of all phrases give what is known of them. -/
def Phrases.Name (P : String → Prop) (rec : Phrases) : Prop :=
  ∀ {α : Type} (ph : Phrase α), Yields P (ph.Names P) (rec ph)

section Step

variable {P : String → Prop} {rec : Phrases} (hn : Phrases.Nest rec)

include hn

/-! ### Types -/

theorem typeArguments_yields {base : Expr} (hbase : NameIs P base) :
    Yields P (NameIs P) (typeArguments rec base) := by
  unfold typeArguments
  refine .peekSecond fun second => .atSymbol fun b => ?_
  split
  · exact .skip (.behind (fun _ => types_takes hn) fun us => .expect (.of_pure nofun))
  · exact .of_pure hbase

theorem namedTail_yields {n : String} (hname : P n) : Yields P (NameIs P) (namedTail rec n) := by
  rw [namedTail_eq]
  refine .atSymbol fun b => ?_
  split
  · exact .skip (.expectName fun f _ => typeArguments_yields hn nofun)
  · refine typeArguments_yields hn ?_
    rintro m ⟨⟩
    exact hname

theorem arrayTail_yields : Yields P (NameIs P) (arrayTail rec) := by
  have helem : ∀ len, Yields P (NameIs P) (expect .rbrack >>= fun _ => rec .type >>= fun t =>
      pure (Expr.arrayType len t)) :=
    fun len => .expect (.behind (hn .type) fun t => .of_pure nofun)
  unfold arrayTail
  refine .peek fun k _ => ?_
  split
  · exact helem none
  · exact .skip (helem _)
  · exact .behind (fun _ => .nested (hn _ _)) fun n => helem _

theorem type_yields : Yields P (NameIs P) (type rec) := by
  unfold type
  refine .peek fun k hk => ?_
  split
  · exact .skip (namedTail_yields hn (hk _ rfl))
  · exact .skip (arrayTail_yields hn)
  · exact .expectKeyword (.expect (.behind (hn _) fun fs => .expect (.of_pure nofun)))
  · exact .expectKeyword (.expect (.behind (hn _) fun is => .expect (.of_pure nofun)))
  · exact .skip (.behind (hn _) fun t => .of_pure nofun)
  · exact .skip (.behind (fun _ => signature_takes hn) fun s => .of_pure nofun)
  · refine .skip (.expect (.behind (hn _) fun k => ?_))
    exact .expect (.behind (hn _) fun v => .of_pure nofun)
  · have helem : ∀ dir, Yields P (NameIs P) (rec .type >>= fun t =>
        pure (Expr.chanType dir t)) := fun dir => .behind (hn _) fun t => .of_pure nofun
    refine .skip (.atSymbol fun b => ?_)
    split
    · exact .skip (helem _)
    · exact helem _
  · exact .skip (.expectKeyword (.behind (hn _) fun t => .of_pure nofun))
  · exact .skip (.behind (hn _) fun t => .expect (.of_pure nofun))
  · exact .unexpected _

/-! ### Expressions -/

theorem funcOperand_yields : Yields P (NameIs P) (funcOperand rec) := by
  unfold funcOperand
  refine .behind (fun _ => signature_takes hn) fun s => .atSymbol fun b => ?_
  split
  · refine .bind (Q := fun _ => True) (.nested (.skip ?_)) fun b _ => .of_pure nofun
    exact .behind (hn _) fun b => .expect (.of_pure trivial)
  · exact .of_pure nofun

theorem operand_yields : Yields P (NameIs P) (operand rec) := by
  unfold operand
  refine .peek fun k hk => ?_
  split
  · refine .skip (.of_pure ?_)
    rintro m ⟨⟩
    exact hk _ rfl
  · exact .skip (.of_pure nofun)
  · exact .skip (.behind (fun _ => .nested (hn _ _)) fun x => .expect (.of_pure nofun))
  · exact .skip (funcOperand_yields hn)
  all_goals first | exact type_yields hn | exact .unexpected _

omit hn in
theorem receive_yields (x : Expr) : Yields P (NameIs P) (receive x) := by
  unfold receive
  split
  · exact .of_pure nofun
  · exact .fail _
  · exact .of_pure nofun

theorem selectorOrAssertion_yields (x : Expr) :
    Yields P (NameIs P) (selectorOrAssertion rec x) := by
  unfold selectorOrAssertion
  refine .peek fun k _ => ?_
  split
  · exact .skip (.of_pure nofun)
  · refine .skip (.peek fun k _ => ?_)
    split
    · exact .skip (.behind (fun _ => .of_pure none) fun t => .expect (.of_pure nofun))
    · refine .behind (hn _) fun t => .behind (fun _ => .of_pure (some t)) fun t => ?_
      exact .expect (.of_pure nofun)
  · exact .unexpected _

theorem indexOrSlice_yields (x : Expr) : Yields P (NameIs P) (indexOrSlice rec x) := by
  have hmade : ∀ low, Yields P (fun made => NameIs P made.1) (sliceOrIndex rec x low) := by
    intro low
    unfold sliceOrIndex
    refine .atSymbol fun b => ?_
    split
    · refine .skip (.behind (fun _ => bound_takes hn) fun high => .atSymbol fun b => ?_)
      split
      · exact .skip (.behind (fun _ => bound_takes hn) fun max => .of_pure nofun)
      · exact .of_pure nofun
    · exact .behind (hn _) fun us => .of_pure nofun
  rw [indexOrSlice_eq]
  refine .expect (.bind (Q := fun made => NameIs P made.1) (.nested (.atSymbol fun b => ?_))
    fun made hname => .expect ?_)
  · split
    · exact hmade none
    · exact .behind (fun _ => expr_takes hn) fun i => hmade (some i)
  · split
    · exact .fail _
    · exact .of_pure hname

theorem call_yields (fn : Expr) : Yields P (NameIs P) (call rec fn) := by
  unfold call
  exact .expect (.behind (fun _ => .nested (hn _ _)) fun as => .expect (.of_pure nofun))

theorem composite_yields (t : Option Expr) : Yields P (NameIs P) (composite rec t) := by
  unfold composite
  exact .expect (.behind (fun _ => .nested (hn _ _)) fun es => .expect (.of_pure nofun))

variable (h : Phrases.Name P rec)

include h

theorem primaryTail_yields (x : Expr) :
    Yields P (fun y => NameIs P x → NameIs P y) (primaryTail rec x) := by
  have htail : ∀ {p : Read Expr}, Yields P (NameIs P) p →
      Yields P (fun y => NameIs P x → NameIs P y) (p >>= fun y => rec (.primaryTail y)) :=
    fun hp => .bind hp fun y hy => (h (.primaryTail y)).mono fun _ hz _ => hz hy
  unfold primaryTail
  refine .peek fun k _ => ?_
  split
  · exact .skip (htail (selectorOrAssertion_yields hn x))
  · exact htail (indexOrSlice_yields hn x)
  · exact htail (call_yields hn x)
  · refine .level fun l => ?_
    split
    · exact htail (composite_yields hn _)
    · exact .of_pure id
  · exact .of_pure id

theorem primary_yields : Yields P (NameIs P) (primary rec) := by
  unfold primary
  exact .bind (operand_yields hn) fun x hx => (h (.primaryTail x)).mono fun _ hy => hy hx

theorem unary_yields : Yields P (NameIs P) (unary rec) := by
  unfold unary
  refine .peek fun k _ => ?_
  split
  · exact .skip (.behind (hn _) fun x => .of_pure nofun)
  · split
    · exact .skip (.behind (hn _) receive_yields)
    · split
      · exact .skip (.behind (hn _) fun x => .of_pure nofun)
      · exact primary_yields hn h

theorem binary_yields (prec : Nat) : Yields P (NameIs P) (binary rec prec) := by
  unfold binary
  exact .bind (unary_yields hn h) fun x hx => (h (.binaryTail prec x)).mono fun _ hy => hy hx

theorem binaryTail_yields (prec : Nat) (left : Expr) :
    Yields P (fun x => NameIs P left → NameIs P x) (binaryTail rec prec left) := by
  unfold binaryTail
  refine .peek fun k _ => ?_
  split
  · split
    · exact .of_pure id
    · refine .skip (.behind (hn _) fun right => (h (.binaryTail prec _)).mono fun _ hy _ => ?_)
      exact hy nofun
  · exact .of_pure id

theorem exprs_yields : Yields P (fun xs => ∀ x ∈ xs, NameIs P x) (exprs rec) := by
  unfold exprs
  refine .bind (binary_yields hn h 1) fun x hx => .bind (h .exprsTail) fun xs hxs => .of_pure ?_
  exact List.forall_mem_cons.mpr ⟨hx, hxs⟩

theorem exprsTail_yields : Yields P (fun xs => ∀ x ∈ xs, NameIs P x) (exprsTail rec) := by
  unfold exprsTail
  refine .atSymbol fun b => ?_
  split
  · exact .skip (exprs_yields hn h)
  · exact .of_pure nofun

/-! ### Declarations -/

omit hn in
theorem names_yields : Yields P (fun ns => ∀ n ∈ ns, P n) (names rec) := by
  unfold names
  refine .expectName fun n hname => .bind (h .namesTail) fun ns hns => .of_pure ?_
  exact List.forall_mem_cons.mpr ⟨hname, hns⟩

omit hn in
theorem namesTail_yields : Yields P (fun ns => ∀ n ∈ ns, P n) (namesTail rec) := by
  unfold namesTail
  refine .peek fun k _ => ?_
  split
  · exact .skip (names_yields h)
  · exact .of_pure nofun

theorem valueSpec_yields (kw : ValueKeyword) (first : Bool) :
    Yields P (fun spec => ∀ n ∈ spec.names, P n) (valueSpec rec kw first) := by
  unfold valueSpec
  refine .bind (names_yields h) fun ns hns => .peek fun k _ => ?_
  extract_lets typed
  have htyped : ∀ t, Yields P (fun spec => ∀ n ∈ spec.names, P n) (typed t) := fun t => by
    have hchecked : ∀ (b : Bool) (f : SyntaxFault) (vs : List Expr),
        Yields P (fun spec => ∀ n ∈ spec.names, P n)
          (if b = true then (Read.fail f : Read Unit) >>= fun _ => pure (ValueSpec.mk ns t vs)
          else pure (ValueSpec.mk ns t vs)) := by
      intro b f vs
      split
      · exact .fail_bind _ _
      · exact .of_pure hns
    refine .atSymbol fun b => ?_
    extract_lets checked
    have hvalues : ∀ vs, Yields P (fun spec => ∀ n ∈ spec.names, P n) (checked vs) := by
      intro vs
      cases kw <;> exact hchecked _ _ _
    split
    · exact .skip (.behind (fun _ => exprs_takes hn) hvalues)
    · exact hvalues []
  split
  · exact htyped none
  · exact .behind (hn _) fun t => htyped (some t)

theorem valueSpecs_yields (kw : ValueKeyword) (first : Bool) :
    Yields P (fun specs => ∀ spec ∈ specs, ∀ n ∈ spec.names, P n) (valueSpecs rec kw first) := by
  unfold valueSpecs
  refine .atListEnd fun b => ?_
  split
  · exact .of_pure nofun
  · refine .bind (valueSpec_yields hn h kw first) fun spec hspec => ?_
    refine .behind (fun _ => .statementEnd) fun _ => ?_
    refine .bind (h (.valueSpecs kw false)) fun specs hspecs => .of_pure ?_
    exact List.forall_mem_cons.mpr ⟨hspec, hspecs⟩

theorem valueDecl_yields (kw : ValueKeyword) :
    Yields P (fun s => ∀ n ∈ (Shape.ofStmt s).sets, P n) (valueDecl rec kw) := by
  unfold valueDecl group
  refine .skip (.bind (Q := fun specs => ∀ spec ∈ specs, ∀ n ∈ spec.names, P n) ?_
    fun specs hspecs => .of_pure ?_)
  · refine .atSymbol fun b => ?_
    split
    · exact .skip (.bind (h (.valueSpecs kw true)) fun specs hspecs => .expect (.of_pure hspecs))
    · refine .bind (valueSpec_yields hn h kw true) fun spec hspec => .of_pure ?_
      exact List.forall_mem_singleton.mpr hspec
  · intro n hmem
    have hsets : (Shape.ofStmt (.valueDecl kw specs)).sets =
        specs.flatMap (·.names.filter (· ≠ "_")) := List.append_nil _
    obtain ⟨spec, hspec, hfilter⟩ := List.mem_flatMap.mp (hsets ▸ hmem)
    exact hspecs spec hspec n (List.mem_filter.mp hfilter).1

/-! ### Statements -/

omit hn h in
theorem targetNames_of {left : List Expr} (hleft : ∀ x ∈ left, NameIs P x) :
    ∀ n ∈ Shape.targetNames left, P n := by
  intro n hmem
  obtain ⟨x, hx, hname⟩ := List.mem_filterMap.mp hmem
  split at hname
  · split at hname
    · cases hname
    · cases hname
      exact hleft _ hx _ rfl
  · cases hname

omit hn h in
theorem sets_assign (left : List Expr) (op : AssignOp) (right : List Expr) :
    (Shape.ofStmt (.simple (.assign left op right))).sets = Shape.targetNames left := by
  cases op with
  | define => exact List.append_nil _
  | assign => rfl
  | compound op => rfl

omit h in
theorem assignment_yields {left : List Expr} (hleft : ∀ x ∈ left, NameIs P x) (op : AssignOp) :
    Yields P (fun s => ∀ n ∈ (Shape.ofStmt (.simple s)).sets, P n) (assignment rec left op) := by
  have hset : ∀ right, Yields P (fun s => ∀ n ∈ (Shape.ofStmt (.simple s)).sets, P n)
      (pure (.assign left op right)) := fun right => .of_pure fun n hmem =>
    targetNames_of hleft n (sets_assign left op right ▸ hmem)
  unfold assignment
  refine .skip (.behind (fun _ => exprs_takes hn) fun right => ?_)
  extract_lets done
  split
  · split
    · exact .fail_bind _ _
    · exact hset right
  · exact hset right

omit h in
theorem simpleTail_yields {left : List Expr} (hleft : ∀ x ∈ left, NameIs P x) :
    Yields P (fun s => ∀ n ∈ (Shape.ofStmt (.simple s)).sets, P n) (simpleTail rec left) := by
  unfold simpleTail
  refine .peek fun k _ => ?_
  split
  · exact assignment_yields hn hleft _
  · split
    · split
      · exact .skip (.behind (fun _ => expr_takes hn) fun v => .of_pure nofun)
      · exact .skip (.of_pure nofun)
      · exact .skip (.of_pure nofun)
      · exact .of_pure nofun
    · exact .unexpected _

theorem simpleOrLabeled_yields :
    Yields P (fun s => ∀ n ∈ (Shape.ofStmt s).sets, P n) (simpleOrLabeled rec) := by
  unfold simpleOrLabeled
  refine .bind (exprs_yields hn h) fun left hleft => .peek fun k _ => ?_
  split
  · unfold labeled
    refine .skip (.peek fun k _ => ?_)
    split
    · exact .of_pure nofun
    · exact .of_pure nofun
    · exact .behind (hn _) fun s => .of_pure nofun
  · refine .bind (simpleTail_yields hn hleft) fun s hs => ?_
    exact .behind (fun _ => .statementEnd) fun _ => .of_pure hs

theorem stmt_yields : Yields P (fun s => ∀ n ∈ (Shape.ofStmt s).sets, P n) (stmt rec) := by
  intro s a s' hs he
  refine ⟨?_, (Yields.of_takes (fun _ => stmt_takes hn) s a s' hs he).2⟩
  rcases stmt_cases he with ⟨-, hsimple⟩ | ⟨kw, -, hdecl⟩ | ⟨-, -, hother⟩
  · exact (simpleOrLabeled_yields hn h s a s' hs hsimple).1
  · obtain ⟨s₁, hvalue, -⟩ := ended_eq_ok.mp hdecl
    exact (valueDecl_yields hn h kw s a s₁ hs hvalue).1
  · rw [hother]
    exact nofun

theorem step_names : Phrases.Name P (Phrase.step rec) := by
  intro α ph
  have hother : Yields P (fun _ => True) (ph.step rec) := .of_takes fun ts => step_nest hn ph ts
  cases ph with
  | binary prec => exact binary_yields hn h prec
  | binaryTail prec x => exact binaryTail_yields hn h prec x
  | unary => exact unary_yields hn h
  | primaryTail x => exact primaryTail_yields hn h x
  | exprsTail => exact exprsTail_yields hn h
  | namesTail => exact namesTail_yields h
  | stmt => exact stmt_yields hn h
  | valueSpecs kw first => exact valueSpecs_yields hn h kw first
  | _ => exact hother

end Step

/-- However deep the phrases nest, what is known of their values holds. -/
theorem read_names (P : String → Prop) (depth : Nat) : Phrases.Name P (Phrase.read depth) := by
  induction depth with
  | zero => exact fun _ => .fail _
  | succ depth ih => exact step_names (read_nest depth) ih

/-- The names that a fragment sets are among its tokens. -/
theorem TokenStream.sets_of_fragment {P : String → Prop} {s : TokenStream}
    (hs : Named P s.tokens) {x : Stmt} (h : s.fragment = .ok x) :
    ∀ n ∈ (Shape.ofStmt x).sets, P n := by
  obtain ⟨-, s₁, s', hstmt, -⟩ := fragment_eq_ok.mp h
  exact (read_names P _ .stmt _ x s₁ hs hstmt).1

end Syntax

open Syntax

namespace Shape

/-- What a fragment sets are names. -/
theorem isName_of_sets {source : String} {shape : Shape} (h : ofSource source = .ok shape)
    {n : String} (hn : n ∈ shape.sets) : Token.IsName n := by
  unfold ofSource at h
  split at h
  · -- an import sets no names
    obtain ⟨is, -, rfl⟩ := ofImport_eq_ok.mp h
    cases hn
  · obtain ⟨x, hparse, rfl⟩ := ofStatement_eq_ok.mp h
    obtain ⟨ts, hts, hx⟩ := ofSource_eq_ok hparse
    have hnamed : Named Token.IsName (TokenStream.ofTokens ts).tokens := fun t ht m hm =>
      Token.isName_of_mem hts ((List.takeWhile_prefix _).subset ht) hm
    exact TokenStream.sets_of_fragment hnamed hx n hn

/-! ## Imports -/

/-- No statement starts with the word `import`. -/
theorem TokenStream.fragment_of_import {s : TokenStream} {x : Stmt}
    (h : Read.headKind s.tokens = .keyword .importKw) : s.fragment ≠ .ok x := by
  intro hx
  obtain ⟨-, s₁, s', hstmt, -⟩ := TokenStream.fragment_eq_ok.mp hx
  change Grammar.stmt _ ⟨s.tokens, 0⟩ = _ at hstmt
  rw [Grammar.stmt, peek_bind, h] at hstmt
  cases hstmt

/-- A fragment whose first token is `import` is rejected or imports packages, perhaps none. -/
theorem imports_of_firstKind? {source : String}
    (h : Token.firstKind? source = some (.keyword .importKw)) :
    (∃ e, ofSource source = .error e) ∨ ∃ specs, parseImports source = .ok specs ∧
      ofSource source = .ok (imports (specs.map (·.path))) := by
  cases hs : ofSource source with
  | error e => exact .inl ⟨e, rfl⟩
  | ok shape =>
    right
    unfold ofSource at hs
    split at hs
    · obtain ⟨specs, hparse, rfl⟩ := ofImport_eq_ok.mp hs
      exact ⟨specs, hparse, rfl⟩
    · exfalso
      obtain ⟨x, hparse, -⟩ := ofStatement_eq_ok.mp hs
      obtain ⟨ts, hts, hx⟩ := ofSource_eq_ok hparse
      obtain ⟨t, ts', rfl, ht⟩ := Token.headKind_of_firstKind? h hts
      refine TokenStream.fragment_of_import ?_ hx
      rw [TokenStream.ofTokens, List.takeWhile_cons_of_pos (by simp [ht])]
      exact ht

end Shape

end GoRepl
