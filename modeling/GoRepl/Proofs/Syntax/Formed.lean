import GoRepl.Proofs.Syntax.Nodes

/-! # Well-formed syntax trees

The rules for what may stand directly in what.  Operators are grouped by how tightly they bind, from
the left where they bind alike; and some trees have their places: a key and its value stand in a
composite literal, an ellipsis in an array length or a parameter.

* `Expr.Grouped`: the rule for operators.
* `Node.Formed`: the rules for all nodes.
* `Expr.Sound`, `Expr.IsOperand`: expressions that keep the rules at every depth.
* `Expr.Sound.binary` and the lemmas around it: one for each way to build a tree.
-/

namespace GoRepl.Syntax

/-! ## The rules -/

namespace Expr

/-- The operator between the two operands that the expression consists of. -/
def operator? : Expr → Option BinaryOp
  | binary _ op _ => some op
  | _ => none

/-- An operator binds at most as tightly as one in its left operand, and less tightly than one in
its right operand.  An operand of another form has no operator at its root. -/
def Grouped : Expr → Prop
  | binary left op right => (1 ≤ op.precedence ∧ op.precedence ≤ 5) ∧
    (∀ o ∈ left.operator?, op.precedence ≤ o.precedence) ∧
    ∀ o ∈ right.operator?, op.precedence < o.precedence
  | unary _ x | star x | selector x _ | index x _ | slice x .. | assertion x _ | call x .. =>
    x.operator? = none
  | _ => True

/-- The expression may stand in a composite literal. -/
def isElement : Expr → Bool
  | ellipsis _ => false
  | _ => true

/-- The expression may be a key or a value in a composite literal. -/
def isEntry : Expr → Bool
  | keyValue .. | ellipsis _ => false
  | _ => true

/-- The expression may stand wherever an expression may. -/
def isPlain : Expr → Bool
  | keyValue .. | composite none _ | ellipsis _ => false
  | _ => true

def isCall : Expr → Bool
  | call .. => true
  | _ => false

/-- The type may be that of a parameter. -/
def isParameter : Expr → Bool
  | ellipsis type => type.isSome
  | x => x.isPlain

/-- The expression may be the length of an array. -/
def isLength : Expr → Bool
  | ellipsis type => type.isNone
  | x => x.isPlain

end Expr

def Field.type : Field → Expr
  | mk _ type => type

namespace Expr

/-- What may stand directly in the expression. -/
def Shaped : Expr → Prop
  | composite type elems =>
    (∀ t ∈ type, t.isPlain = true ∧ t.isLiteralType = true) ∧ ∀ e ∈ elems, e.isElement = true
  | keyValue key value => key.isEntry = true ∧ value.isEntry = true
  | paren x | selector x _ | star x | chanType _ x => x.isPlain = true
  | unary op x => x.isPlain = true ∧ (op = .arrow → ∀ dir t, x ≠ chanType dir t)
  | index x args => x.isPlain = true ∧ args ≠ [] ∧ ∀ a ∈ args, a.isPlain = true
  | slice x low high max => x.isPlain = true ∧ (max.isSome = true → high.isSome = true) ∧
    ∀ b ∈ low.toList ++ high.toList ++ max.toList, b.isPlain = true
  | assertion x type => x.isPlain = true ∧ ∀ t ∈ type, t.isPlain = true
  | call fn args _ => fn.isPlain = true ∧ ∀ a ∈ args, a.isPlain = true
  | binary left _ right => left.isPlain = true ∧ right.isPlain = true
  | arrayType len elem => (∀ n ∈ len, n.isLength = true) ∧ elem.isPlain = true
  | ellipsis type => ∀ t ∈ type, t.isPlain = true
  | mapType key value => key.isPlain = true ∧ value.isPlain = true
  | structType fields => ∀ f ∈ fields, f.type.isPlain = true
  | name _ | literal _ | funcLit .. | funcType _ | interfaceType _ => True

end Expr

/-- An assignment has two sides, and a compound one has one operand on each. -/
def Simple.Shaped : Simple → Prop
  | assign left op right => left ≠ [] ∧ right ≠ [] ∧
    ∀ c, op = .compound c → left.length = 1 ∧ right.length = 1
  | _ => True

/-- The names have what the declaration asks for: variables a type or values, constants values.
Constants without a type may repeat the values of the line above, if there is one. -/
def ValueSpec.isComplete (kw : ValueKeyword) (first : Bool) : ValueSpec → Bool
  | mk _ type values => !values.isEmpty ||
    match kw with
    | .var => type.isSome
    | .const => type.isNone && !first

/-- The lines of a declaration, of which the first one starts a group if `first` holds. -/
def ValueKeyword.Lines (kw : ValueKeyword) (first : Bool) (specs : List ValueSpec) : Prop :=
  (∀ spec ∈ specs, spec.isComplete kw false = true) ∧
    ∀ spec ∈ specs.head?, spec.isComplete kw first = true

namespace Stmt

/-- The statement may stand behind `else`. -/
def isBranch : Stmt → Bool
  | ifThen .. | block _ => true
  | _ => false

def Shaped : Stmt → Prop
  | goCall call | deferCall call => call.isCall = true
  | ifThen _ _ _ orElse => ∀ s ∈ orElse, s.isBranch = true
  | range key value define _ _ =>
    (value.isSome = true → key.isSome = true) ∧ (key = none → define = false)
  | valueDecl kw specs => kw.Lines true specs
  | _ => True

end Stmt

/-- What may stand directly in the node. -/
def Node.Formed : Node → Prop
  | expr x => x.Grouped ∧ x.Shaped
  | field _ => True
  | signature (.mk params results) => ∀ f ∈ params ++ results, f.type.isParameter = true
  | simple s => s.Shaped ∧ ∀ x, expr x ∈ (simple s).children → x.isPlain = true
  | stmt s => s.Shaped ∧ ∀ x, expr x ∈ (stmt s).children → x.isPlain = true
  | valueSpec spec => spec.names ≠ [] ∧ ∀ x, expr x ∈ (valueSpec spec).children → x.isPlain = true
  | n => ∀ x, expr x ∈ n.children → x.isPlain = true

/-! ## Building trees -/

theorem forall_mem_some {α : Type} {P : α → Prop} {a : α} (h : P a) : ∀ b ∈ some a, P b := by
  rintro b ⟨⟩
  exact h

namespace Node

/-- The rules are kept at every depth. -/
abbrev Sound (n : Node) : Prop := n.Every Formed

variable {n : Node}

theorem Sound.intro (hn : n.Formed) (hc : ∀ c ∈ n.children, c.Sound) : n.Sound :=
  every_iff.mpr ⟨hn, hc⟩

end Node

namespace Expr

/-- An expression that may stand wherever one may, and keeps the rules at every depth. -/
structure Sound (x : Expr) : Prop where
  every : (Node.expr x).Sound
  plain : x.isPlain = true

/-- A sound expression without an operator at its root. -/
structure IsOperand (x : Expr) : Prop extends Sound x where
  bare : x.operator? = none

/-- An element of a composite literal. -/
structure IsElement (x : Expr) : Prop where
  every : (Node.expr x).Sound
  element : x.isElement = true

/-- A key or a value in a composite literal. -/
structure IsEntry (x : Expr) : Prop where
  every : (Node.expr x).Sound
  entry : x.isEntry = true

theorem IsEntry.isElement {x : Expr} (h : x.IsEntry) : x.IsElement := by
  refine ⟨h.every, ?_⟩
  cases x with
  | ellipsis => cases h.entry
  | _ => rfl

theorem Sound.isEntry {x : Expr} (h : x.Sound) : x.IsEntry := by
  refine ⟨h.every, ?_⟩
  cases x with
  | keyValue => cases h.plain
  | ellipsis => cases h.plain
  | _ => rfl

variable {x y : Expr} {xs : List Expr}

theorem every_map (h : ∀ x ∈ xs, x.Sound) : ∀ c ∈ xs.map Node.expr, c.Sound :=
  List.forall_mem_map.mpr fun x hx => (h x hx).every

theorem isOperand_name (n : String) : (name n).IsOperand :=
  ⟨⟨.intro ⟨trivial, trivial⟩ nofun, rfl⟩, rfl⟩

theorem isOperand_literal (t : String) : (literal t).IsOperand :=
  ⟨⟨.intro ⟨trivial, trivial⟩ nofun, rfl⟩, rfl⟩

theorem isOperand_paren (h : x.Sound) : (paren x).IsOperand :=
  ⟨⟨.intro ⟨trivial, h.plain⟩ (List.forall_mem_singleton.mpr h.every), rfl⟩, rfl⟩

theorem IsOperand.selector (h : x.IsOperand) (f : String) : (selector x f).IsOperand :=
  ⟨⟨.intro ⟨h.bare, h.plain⟩ (List.forall_mem_singleton.mpr h.every), rfl⟩, rfl⟩

theorem IsOperand.star (h : x.IsOperand) : (star x).IsOperand :=
  ⟨⟨.intro ⟨h.bare, h.plain⟩ (List.forall_mem_singleton.mpr h.every), rfl⟩, rfl⟩

theorem IsOperand.unary (h : x.IsOperand) (op : UnaryOp)
    (hop : op = .arrow → ∀ dir t, x ≠ chanType dir t) : (unary op x).IsOperand :=
  ⟨⟨.intro ⟨h.bare, h.plain, hop⟩ (List.forall_mem_singleton.mpr h.every), rfl⟩, rfl⟩

theorem IsOperand.index (h : x.IsOperand) (hne : xs ≠ []) (hxs : ∀ a ∈ xs, a.Sound) :
    (index x xs).IsOperand :=
  ⟨⟨.intro ⟨h.bare, h.plain, hne, fun a ha => (hxs a ha).plain⟩
    (List.forall_mem_cons.mpr ⟨h.every, every_map hxs⟩), rfl⟩, rfl⟩

theorem IsOperand.call (h : x.IsOperand) (hxs : ∀ a ∈ xs, a.Sound) (spread : Bool) :
    (call x xs spread).IsOperand :=
  ⟨⟨.intro ⟨h.bare, h.plain, fun a ha => (hxs a ha).plain⟩
    (List.forall_mem_cons.mpr ⟨h.every, every_map hxs⟩), rfl⟩, rfl⟩

theorem IsOperand.slice (h : x.IsOperand) {low high max : Option Expr}
    (hmax : max.isSome = true → high.isSome = true)
    (hbounds : ∀ b ∈ low.toList ++ high.toList ++ max.toList, b.Sound) :
    (slice x low high max).IsOperand :=
  ⟨⟨.intro ⟨h.bare, h.plain, hmax, fun b hb => (hbounds b hb).plain⟩
    (List.forall_mem_cons.mpr ⟨h.every, every_map hbounds⟩), rfl⟩, rfl⟩

theorem IsOperand.assertion (h : x.IsOperand) {type : Option Expr} (ht : ∀ t ∈ type, t.Sound) :
    (assertion x type).IsOperand :=
  ⟨⟨.intro ⟨h.bare, h.plain, fun t hmem => (ht t hmem).plain⟩ (List.forall_mem_cons.mpr
    ⟨h.every, every_map fun t hmem => ht t (Option.mem_toList.mp hmem)⟩), rfl⟩, rfl⟩

theorem isEntry_composite {type : Option Expr}
    (ht : ∀ t ∈ type, t.Sound ∧ t.isLiteralType = true) (hxs : ∀ e ∈ xs, e.IsElement) :
    (composite type xs).IsEntry := by
  refine ⟨.intro ⟨trivial, fun t hmem => ?_, fun e he => (hxs e he).element⟩ ?_, rfl⟩
  · exact ⟨(ht t hmem).1.plain, (ht t hmem).2⟩
  · refine List.forall_mem_append.mpr ⟨?_, List.forall_mem_map.mpr fun e he => (hxs e he).every⟩
    exact every_map fun t hmem => (ht t (Option.mem_toList.mp hmem)).1

theorem IsOperand.composite (h : x.IsOperand) (hx : x.isLiteralType = true)
    (hxs : ∀ e ∈ xs, e.IsElement) : (composite (some x) xs).IsOperand :=
  ⟨⟨(isEntry_composite (forall_mem_some ⟨h.toSound, hx⟩) hxs).every, rfl⟩, rfl⟩

theorem IsEntry.keyValue (hx : x.IsEntry) (hy : y.IsEntry) : (keyValue x y).IsElement :=
  ⟨.intro ⟨trivial, hx.entry, hy.entry⟩
    (List.forall_mem_cons.mpr ⟨hx.every, List.forall_mem_singleton.mpr hy.every⟩), rfl⟩

/-- The operands of an operator bind more tightly, on the left perhaps alike. -/
theorem Sound.binary {op : BinaryOp} (hx : x.Sound) (hy : y.Sound)
    (hleft : ∀ o ∈ x.operator?, op.precedence ≤ o.precedence)
    (hright : ∀ o ∈ y.operator?, op.precedence < o.precedence) : (binary x op y).Sound :=
  ⟨.intro ⟨⟨⟨op.precedence_pos, op.precedence_le⟩, hleft, hright⟩, hx.plain, hy.plain⟩
    (List.forall_mem_cons.mpr ⟨hx.every, List.forall_mem_singleton.mpr hy.every⟩), rfl⟩

/-! ### Types -/

theorem isLength_of_isPlain (h : x.isPlain = true) : x.isLength = true := by
  cases x with
  | ellipsis => cases h
  | _ => exact h

theorem IsOperand.arrayType (h : x.IsOperand) {len : Option Expr}
    (hlen : ∀ n ∈ len, (Node.expr n).Sound ∧ n.isLength = true) : (arrayType len x).IsOperand := by
  refine ⟨⟨.intro ⟨trivial, fun n hn => (hlen n hn).2, h.plain⟩ ?_, rfl⟩, rfl⟩
  refine List.forall_mem_append.mpr ⟨?_, List.forall_mem_singleton.mpr h.every⟩
  exact List.forall_mem_map.mpr fun n hn => (hlen n (Option.mem_toList.mp hn)).1

theorem every_ellipsis {type : Option Expr} (ht : ∀ t ∈ type, t.Sound) :
    (Node.expr (ellipsis type)).Sound :=
  .intro ⟨trivial, fun t hmem => (ht t hmem).plain⟩
    (every_map fun t hmem => ht t (Option.mem_toList.mp hmem))

theorem isOperand_mapType (hx : x.IsOperand) (hy : y.IsOperand) : (mapType x y).IsOperand :=
  ⟨⟨.intro ⟨trivial, hx.plain, hy.plain⟩
    (List.forall_mem_cons.mpr ⟨hx.every, List.forall_mem_singleton.mpr hy.every⟩), rfl⟩, rfl⟩

theorem Sound.chanType (h : x.Sound) (dir : ChanDir) : (chanType dir x).IsOperand :=
  ⟨⟨.intro ⟨trivial, h.plain⟩ (List.forall_mem_singleton.mpr h.every), rfl⟩, rfl⟩

/-- The type of what goes through a channel. -/
theorem Sound.of_chanType {dir : ChanDir} (h : (Expr.chanType dir x).Sound) : x.Sound :=
  ⟨(Node.every_iff.mp h.every).2 _ (.head _), h.every.head.2⟩

theorem isOperand_structType {fields : List Field}
    (h : ∀ f ∈ fields, (Node.field f).Sound ∧ f.type.isPlain = true) :
    (structType fields).IsOperand :=
  ⟨⟨.intro ⟨trivial, fun f hf => (h f hf).2⟩ (List.forall_mem_map.mpr fun f hf => (h f hf).1), rfl⟩,
    rfl⟩

theorem isOperand_interfaceType {items : List InterfaceItem}
    (h : ∀ i ∈ items, (Node.item i).Sound) : (interfaceType items).IsOperand :=
  ⟨⟨.intro ⟨trivial, trivial⟩ (List.forall_mem_map.mpr h), rfl⟩, rfl⟩

theorem isOperand_funcType {sig : Signature} (h : (Node.signature sig).Sound) :
    (funcType sig).IsOperand :=
  ⟨⟨.intro ⟨trivial, trivial⟩ (List.forall_mem_singleton.mpr h), rfl⟩, rfl⟩

theorem isOperand_funcLit {sig : Signature} {body : List Stmt} (h : (Node.signature sig).Sound)
    (hbody : ∀ s ∈ body, (Node.stmt s).Sound) : (funcLit sig body).IsOperand :=
  ⟨⟨.intro ⟨trivial, trivial⟩ (List.forall_mem_cons.mpr ⟨h, List.forall_mem_map.mpr hbody⟩), rfl⟩,
    rfl⟩

end Expr

namespace Field

variable {f : Field} {x : Expr}

/-- A parameter or a result. -/
structure IsParameter (f : Field) : Prop where
  every : (Node.field f).Sound
  parameter : f.type.isParameter = true

theorem sound_mk (h : (Node.expr x).Sound) (ns : List String) : (Node.field (mk ns x)).Sound :=
  .intro trivial (List.forall_mem_singleton.mpr h)

theorem isParameter_of_isPlain (h : x.isPlain = true) : x.isParameter = true := by
  cases x with
  | ellipsis => cases h
  | _ => exact h

theorem isParameter_mk (h : x.Sound) (ns : List String) : (mk ns x).IsParameter :=
  ⟨sound_mk h.every ns, isParameter_of_isPlain h.plain⟩

theorem isParameter_ellipsis (h : x.Sound) (ns : List String) :
    (mk ns (.ellipsis (some x))).IsParameter :=
  ⟨sound_mk (Expr.every_ellipsis (forall_mem_some h)) ns, rfl⟩

theorem sound_signature {params results : List Field} (hp : ∀ f ∈ params, f.IsParameter)
    (hr : ∀ f ∈ results, f.IsParameter) : (Node.signature (.mk params results)).Sound := by
  have h : ∀ f ∈ params ++ results, f.IsParameter := List.forall_mem_append.mpr ⟨hp, hr⟩
  exact .intro (fun f hf => (h f hf).parameter)
    (List.forall_mem_map.mpr fun f hf => (h f hf).every)

end Field

/-! ### Statements -/

namespace Node

/-- A sound node that, if it is an expression, may stand wherever one may. -/
def Proper : Node → Prop
  | expr x => x.Sound
  | n => n.Sound

variable {n : Node} {cs : List Node}

theorem Proper.sound (h : n.Proper) : n.Sound := by
  cases n with
  | expr x => exact Expr.Sound.every h
  | _ => exact h

theorem plain_of_proper (h : ∀ c ∈ cs, c.Proper) {x : Expr} (hx : expr x ∈ cs) :
    x.isPlain = true :=
  Expr.Sound.plain (h _ hx)

theorem proper_map {xs : List Expr} (h : ∀ x ∈ xs, x.Sound) : ∀ c ∈ xs.map expr, c.Proper :=
  List.forall_mem_map.mpr h

theorem proper_option {α : Type} {f : α → Node} {o : Option α} (h : ∀ a ∈ o, (f a).Proper) :
    ∀ c ∈ o.toList.map f, c.Proper :=
  List.forall_mem_map.mpr fun a ha => h a (Option.mem_toList.mp ha)

theorem sound_of_proper (hn : (∀ x, expr x ∈ n.children → x.isPlain = true) → n.Formed)
    (h : ∀ c ∈ n.children, c.Proper) : n.Sound :=
  .intro (hn fun _ hx => plain_of_proper h hx) fun c hc => (h c hc).sound

theorem sound_simple {s : Simple} (hs : s.Shaped) (h : ∀ c ∈ (simple s).children, c.Proper) :
    (simple s).Sound :=
  sound_of_proper (fun hplain => ⟨hs, hplain⟩) h

theorem sound_stmt {s : Stmt} (hs : s.Shaped) (h : ∀ c ∈ (stmt s).children, c.Proper) :
    (stmt s).Sound :=
  sound_of_proper (fun hplain => ⟨hs, hplain⟩) h

theorem sound_method {sig : Signature} (h : (signature sig).Sound) (n : String) :
    (item (.method n sig)).Sound :=
  .intro nofun (List.forall_mem_singleton.mpr h)

theorem sound_union {terms : List Expr} (h : ∀ t ∈ terms, t.Sound) :
    (item (.union terms)).Sound :=
  sound_of_proper id (proper_map h)

end Node

end GoRepl.Syntax
