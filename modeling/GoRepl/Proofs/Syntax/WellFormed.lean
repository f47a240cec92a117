import GoRepl.Proofs.Syntax.FormedStatements

/-! # The shape of parsed trees

What a program that walks over a parsed tree may rely on.  Most expressions may stand anywhere; an
entry, a literal without a type and an ellipsis each have their places.

* `Place`, `Node.placed`: the expressions directly in a node, and where in it they stand.
* `Expr.Fits`: which expressions may stand in a place.
* `Node.WellFormed`: what the parts of a node have to be.
* `TokenStream.wellFormed_of_isTree`: all nodes of every parsed tree keep these rules.
-/

namespace GoRepl.Syntax

/-- Where in a node an expression stands. -/
inductive Place where
  /-- An element of a composite literal. -/
  | element
  /-- The key or the value of an element. -/
  | entry
  /-- The length of an array type. -/
  | length
  /-- The type of a parameter or a result of a function. -/
  | parameter
  | other
  deriving Repr, DecidableEq

namespace Node

/-- The expression that the node is. -/
def expr? : Node → Option Expr
  | expr x => some x
  | _ => none

/-- The expressions directly in a node with their places.  The type of a field is counted in the
struct or the signature that has the field. -/
def placed : Node → List (Expr × Place)
  | expr (.composite type elems) => type.toList.map (·, .other) ++ elems.map (·, .element)
  | expr (.keyValue key value) => [(key, .entry), (value, .entry)]
  | expr (.arrayType len elem) => len.toList.map (·, .length) ++ [(elem, .other)]
  | expr (.structType fields) => fields.map (·.type, .other)
  | signature (.mk params results) => (params ++ results).map (·.type, .parameter)
  | field _ => []
  | n => (n.children.filterMap expr?).map (·, .other)

end Node

/-- A pair of a key and a value is an element of a composite literal.  A literal without a type is
an element, or the key or value of one.  An ellipsis without a type is the length of an array, one
with a type is the type of a parameter. -/
def Expr.Fits (x : Expr) (p : Place) : Prop :=
  match x with
  | keyValue .. => p = .element
  | composite none _ => p = .element ∨ p = .entry
  | ellipsis none => p = .length
  | ellipsis (some _) => p = .parameter
  | _ => True

namespace Node

/-- What the parts of a node have to be. -/
def WellFormed : Node → Prop
  | expr (.composite type _) => ∀ t ∈ type, t.isLiteralType = true
  | expr (.index _ args) => args ≠ []
  | expr (.slice _ _ high max) => max.isSome = true → high.isSome = true
  | expr (.unary .arrow x) => ∀ dir elem, x ≠ .chanType dir elem
  | simple (.assign left op right) => left ≠ [] ∧ right ≠ [] ∧
    ∀ c, op = .compound c → left.length = 1 ∧ right.length = 1
  | stmt (.goCall x) | stmt (.deferCall x) => ∃ fn args spread, x = .call fn args spread
  | stmt (.ifThen _ _ _ orElse) => ∀ s ∈ orElse,
    (∃ init cond body orElse', s = .ifThen init cond body orElse') ∨ ∃ body, s = .block body
  | stmt (.range key value define _ _) =>
    (value.isSome = true → key.isSome = true) ∧ (key = none → define = false)
  | stmt (.valueDecl .var specs) => ∀ names type values,
    .mk names type values ∈ specs → type.isSome = true ∨ values ≠ []
  | stmt (.valueDecl .const specs) =>
    (∀ names type values, .mk names type values ∈ specs → values ≠ [] ∨ type = none) ∧
      ∀ names type values, specs.head? = some (.mk names type values) → values ≠ []
  | valueSpec spec => spec.names ≠ []
  | _ => True

/-- A statement in the header of a control statement, or in the clause of a `select`, is an
expression, an assignment, an increment or decrement, or a send; the lines of a declaration are
types if and only if it is a `type` declaration. -/
def Typed (n : Node) : Prop :=
  (∀ s, simple s ∈ n.children → (∃ x, s = .expr x) ∨ (∃ left op right, s = .assign left op right) ∨
    (∃ x, s = .inc x ∨ s = .dec x) ∨ ∃ chan value, s = .send chan value) ∧
  (∀ spec, typeSpec spec ∈ n.children → ∃ specs, n = stmt (.typeDecl specs)) ∧
  ∀ specs, n = stmt (.typeDecl specs) → ∀ c ∈ n.children, ∃ spec, c = typeSpec spec

end Node

/-! ## Places -/

/-- What the rules of trees say of a place. -/
def Place.Admits (p : Place) (x : Expr) : Prop :=
  match p with
  | element => x.isElement = true
  | entry => x.isEntry = true
  | length => x.isLength = true
  | parameter => x.isParameter = true
  | other => x.isPlain = true

theorem Place.Admits.fits {p : Place} {x : Expr} (h : p.Admits x) : x.Fits p := by
  cases x with
  | keyValue key value =>
    cases p with
    | element => rfl
    | _ => cases h
  | composite type elems =>
    cases type with
    | none =>
      cases p with
      | element => exact .inl rfl
      | entry => exact .inr rfl
      | _ => cases h
    | some t => trivial
  | ellipsis type =>
    cases type with
    | none =>
      cases p with
      | length => rfl
      | _ => cases h
    | some t =>
      cases p with
      | parameter => rfl
      | _ => cases h
  | _ => trivial

namespace Node

variable {n : Node} {x : Expr} {p : Place}

theorem mem_map_other {cs : List Node} :
    (x, p) ∈ (cs.filterMap expr?).map (·, Place.other) ↔ expr x ∈ cs ∧ p = .other := by
  have hexpr : ∀ c y, expr? c = some y ↔ c = expr y := by
    intro c y
    cases c <;> simp [expr?]
  simp only [List.mem_map, List.mem_filterMap, hexpr, Prod.mk.injEq]
  constructor
  · rintro ⟨y, ⟨c, hc, rfl⟩, rfl, rfl⟩
    exact ⟨hc, rfl⟩
  · rintro ⟨hx, rfl⟩
    exact ⟨x, ⟨_, hx, rfl⟩, rfl, rfl⟩

/-- Every expression that stands directly in a node has a place in it.  Only that of the type of a
field is in the struct or signature above. -/
theorem exists_placed (h : expr x ∈ n.children) : (∃ p, (x, p) ∈ n.placed) ∨ ∃ f, n = field f := by
  have hother : (x, Place.other) ∈ (n.children.filterMap expr?).map (·, Place.other) :=
    mem_map_other.mpr ⟨h, rfl⟩
  cases n with
  | field f => exact .inr ⟨f, rfl⟩
  | signature sig =>
    obtain ⟨params, results⟩ := sig
    simp [children] at h
  | expr y =>
    left
    cases y with
    | composite type elems =>
      rcases List.mem_append.mp h with h | h
      · exact ⟨.other, by simpa [placed] using h⟩
      · exact ⟨.element, by simpa [placed] using h⟩
    | keyValue key value => exact ⟨.entry, by simpa [placed, children] using h⟩
    | arrayType len elem =>
      rcases List.mem_append.mp h with h | h
      · exact ⟨.length, by simpa [placed] using h⟩
      · exact ⟨.other, by simpa [placed] using h⟩
    | structType fields => simp [children] at h
    | _ => exact ⟨.other, hother⟩
  | _ => exact .inl ⟨.other, hother⟩

/-- The rules of trees say of each place what it admits. -/
theorem Formed.admits (hn : n.Formed) (h : (x, p) ∈ n.placed) : p.Admits x := by
  have hother : (∀ y, expr y ∈ n.children → y.isPlain = true) →
      (x, p) ∈ (n.children.filterMap expr?).map (·, Place.other) → p.Admits x := by
    intro hplain hmem
    obtain ⟨hx, rfl⟩ := mem_map_other.mp hmem
    exact hplain x hx
  cases n with
  | field f => cases h
  | signature sig =>
    obtain ⟨params, results⟩ := sig
    obtain ⟨f, hf, heq⟩ := List.mem_map.mp h
    cases heq
    exact hn _ hf
  | expr y =>
    obtain ⟨-, hshaped⟩ := hn
    cases y with
    | composite type elems =>
      rcases List.mem_append.mp h with h | h
      · obtain ⟨t, ht, heq⟩ := List.mem_map.mp h
        cases heq
        exact (hshaped.1 _ (Option.mem_toList.mp ht)).1
      · obtain ⟨e, he, heq⟩ := List.mem_map.mp h
        cases heq
        exact hshaped.2 _ he
    | keyValue key value =>
      rcases List.mem_cons.mp h with heq | heq
      · cases heq
        exact hshaped.1
      · cases List.mem_singleton.mp heq
        exact hshaped.2
    | arrayType len elem =>
      rcases List.mem_append.mp h with h | h
      · obtain ⟨k, hk, heq⟩ := List.mem_map.mp h
        cases heq
        exact hshaped.1 _ (Option.mem_toList.mp hk)
      · cases List.mem_singleton.mp h
        exact hshaped.2
    | structType fields =>
      obtain ⟨f, hf, heq⟩ := List.mem_map.mp h
      cases heq
      exact hshaped _ hf
    | name | literal | funcLit | funcType | interfaceType =>
      refine hother ?_ h
      simp [children]
    | paren | selector | star | chanType | unary | index | slice | assertion | call | binary
    | ellipsis | mapType =>
      refine hother ?_ h
      simp_all [children, Expr.Shaped]
  | simple s => exact hother hn.2 h
  | stmt s => exact hother hn.2 h
  | valueSpec spec => exact hother hn.2 h
  | _ => exact hother hn h

/-! ## Parts -/

theorem exists_of_isCall (h : x.isCall = true) : ∃ fn args spread, x = .call fn args spread := by
  cases x with
  | call fn args spread => exact ⟨fn, args, spread, rfl⟩
  | _ => cases h

theorem exists_of_isBranch {s : Stmt} (h : s.isBranch = true) :
    (∃ init cond body orElse, s = .ifThen init cond body orElse) ∨ ∃ body, s = .block body := by
  cases s with
  | ifThen init cond body orElse => exact .inl ⟨init, cond, body, orElse, rfl⟩
  | block body => exact .inr ⟨body, rfl⟩
  | _ => cases h

theorem wellFormed_valueDecl {kw : ValueKeyword} {specs : List ValueSpec}
    (h : kw.Lines true specs) : (stmt (.valueDecl kw specs)).WellFormed := by
  cases kw with
  | var =>
    intro names type values hmem
    have hline := h.1 _ hmem
    cases values <;> simp_all [ValueSpec.isComplete]
  | const =>
    refine ⟨fun names type values hmem => ?_, fun names type values hhead => ?_⟩
    · have hline := h.1 _ hmem
      cases values <;> simp_all [ValueSpec.isComplete]
    · have hline := h.2 _ hhead
      cases values <;> simp_all [ValueSpec.isComplete]

theorem Formed.wellFormed (hn : n.Formed) : n.WellFormed := by
  cases n with
  | expr x =>
    obtain ⟨-, hshaped⟩ := hn
    cases x with
    | composite type elems => exact fun t ht => (hshaped.1 t ht).2
    | index x args => exact hshaped.2.1
    | slice x low high max => exact hshaped.2.1
    | unary op x =>
      cases op with
      | arrow => exact hshaped.2 rfl
      | _ => trivial
    | _ => trivial
  | simple s =>
    cases s with
    | assign left op right => exact hn.1
    | _ => trivial
  | stmt s =>
    obtain ⟨hshaped, -⟩ := hn
    cases s with
    | goCall x => exact exists_of_isCall hshaped
    | deferCall x => exact exists_of_isCall hshaped
    | ifThen init cond body orElse => exact fun s hs => exists_of_isBranch (hshaped s hs)
    | range key value define operand body => exact hshaped
    | valueDecl kw specs => exact wellFormed_valueDecl hshaped
    | _ => trivial
  | valueSpec spec => exact hn.1
  | _ => trivial

theorem typed (n : Node) : n.Typed := by
  refine ⟨fun s _ => ?_, fun spec hspec => ?_, ?_⟩
  · cases s with
    | expr x => exact .inl ⟨x, rfl⟩
    | assign left op right => exact .inr (.inl ⟨left, op, right, rfl⟩)
    | inc x => exact .inr (.inr (.inl ⟨x, .inl rfl⟩))
    | dec x => exact .inr (.inr (.inl ⟨x, .inr rfl⟩))
    | send chan value => exact .inr (.inr (.inr ⟨chan, value, rfl⟩))
  · cases n with
    | stmt s =>
      cases s with
      | typeDecl specs => exact ⟨specs, rfl⟩
      | _ => simp [children] at hspec
    | expr x => cases x <;> simp [children] at hspec
    | simple s => cases s <;> simp [children] at hspec
    | item i => cases i <;> simp [children] at hspec
    | field f => cases f; simp [children] at hspec
    | signature sig => cases sig; simp [children] at hspec
    | valueSpec spec => cases spec; simp [children] at hspec
    | typeSpec spec => cases spec; simp [children] at hspec
    | caseClause c => cases c; simp [children] at hspec
    | commClause c => cases c; simp [children] at hspec
  · rintro specs rfl c hc
    obtain ⟨spec, -, rfl⟩ := List.mem_map.mp hc
    exact ⟨spec, rfl⟩

end Node

namespace TokenStream

open Read Grammar

/-- A parsed expression may stand anywhere. -/
theorem isPlain_of_expression {s : TokenStream} {x : Expr} (h : s.expression = .ok x) :
    x.isPlain = true := by
  obtain ⟨s', hwhole⟩ := run_eq_ok.mp h
  obtain ⟨s₁, hexpr, -⟩ := whole_eq_ok.mp hwhole
  exact ((read_form _).gives (.binary 1) _ _ _ hexpr).1.plain

/-- Every node of every parsed tree, whatever the tokens, has the parts that it has to have, and all
expressions in it stand in their places. -/
theorem wellFormed_of_isTree {ts : List Token} {root : Node} (h : (ofTokens ts).IsTree root) :
    (∀ x, root = .expr x → x.Fits .other) ∧
      ∀ n, Within n root → n.WellFormed ∧ n.Typed ∧ (∀ x p, (x, p) ∈ n.placed → x.Fits p) ∧
        ∀ x, .expr x ∈ n.children → (∃ p, (x, p) ∈ n.placed) ∨ ∃ f, n = .field f := by
  have hsound := sound_of_isTree h
  refine ⟨?_, fun n hn => ?_⟩
  · rintro x rfl
    cases h with
    | expression read =>
      have hplain : Place.other.Admits x := isPlain_of_expression read
      exact hplain.fits
  · have hformed : n.Formed := (hsound.within hn).head
    exact ⟨hformed.wellFormed, n.typed, fun x p hx => (hformed.admits hx).fits,
      fun x hx => Node.exists_placed hx⟩

/-- A range loop over a block with a compound assignment of a literal with a key and a value. -/
theorem wellFormed_range :
    let ts := spell [.keyword .forKw, .name "k", .symbol .comma, .name "v", .symbol .define,
      .keyword .rangeKw, .name "m", .symbol .lbrace, .name "x", .symbol (.compound .add), .name "T",
      .symbol .lbrace, .name "k", .symbol .colon, .symbol .lbrace, .name "v", .symbol .rbrace,
      .symbol .rbrace, .newline, .symbol .rbrace, .newline, .eof]
    let pair : Expr := .keyValue (.name "k") (.composite none [.name "v"])
    let sum : Simple := .assign [.name "x"] (.compound .add) [.composite (some (.name "T")) [pair]]
    let root : Stmt := .range (some (.name "k")) (some (.name "v")) true (.name "m") [.simple sum]
    (ofTokens ts).IsTree (.stmt root) ∧ Within (.expr pair) (.stmt root) ∧
      (Node.stmt root).WellFormed ∧ (Node.simple sum).WellFormed ∧
      ∀ x p, (x, p) ∈ (Node.expr pair).placed → x.Fits p := by
  intro ts pair sum root
  -- the tree is read part by part: the block, the loop, the statement
  have hbody : block (Phrase.read 21) ⟨(ofTokens ts).tokens.drop 7, 0⟩ =
      .ok ([.simple sum], ⟨spell [.newline], 0⟩) := rfl
  have hloop : loop (Phrase.read 21) ⟨(ofTokens ts).tokens, 0⟩ =
      .ok (root, ⟨spell [.newline], 0⟩) :=
    bind_eq_ok.mpr ⟨(), ⟨(ofTokens ts).tokens.drop 1, 0⟩, rfl, bind_eq_ok.mpr
      ⟨.range (some (.name "k")) (some (.name "v")) true (.name "m"), _, rfl,
        bind_eq_ok.mpr ⟨_, _, hbody, rfl⟩⟩⟩
  have hstmt : stmt (Phrase.read 21) ⟨(ofTokens ts).tokens, 0⟩ = .ok (root, ⟨[], 0⟩) := by
    have hfirst : headKind (ofTokens ts).tokens = .keyword .forKw := rfl
    rw [stmt, peek_bind, hfirst]
    exact bind_eq_ok.mpr ⟨root, _, hloop, rfl⟩
  have htree : (ofTokens ts).IsTree (.stmt root) :=
    .fragment (fragment_eq_ok.mpr ⟨Kind.noConfusion, _, _, hstmt, rfl⟩)
  have hsum : Within (.simple sum) (.stmt root) :=
    .child (.tail _ (.tail _ (.tail _ (.head _)))) (.child (.head _) (.self _))
  have hpair : Within (.expr pair) (.simple sum) :=
    .child (.tail _ (.head _)) (.child (.tail _ (.head _)) (.self _))
  obtain ⟨-, hnodes⟩ := wellFormed_of_isTree htree
  exact ⟨htree, hpair.trans hsum, (hnodes _ (.self _)).1, (hnodes _ hsum).1,
    (hnodes _ (hpair.trans hsum)).2.2.1⟩

end TokenStream

end GoRepl.Syntax
