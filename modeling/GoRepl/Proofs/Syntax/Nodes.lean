import GoRepl.Syntax.Tree

/-! # The nodes of a syntax tree

* `Node`, `Node.children`: everything that may stand in a tree, and what stands directly in it.
* `Within`: what stands in a node at any depth.
* `Node.Every`: a property of all that stands in a node.
-/

namespace GoRepl.Syntax

/-- What a syntax tree is made of. -/
inductive Node where
  | expr (x : Expr)
  | field (f : Field)
  | signature (sig : Signature)
  | item (i : InterfaceItem)
  | simple (s : Simple)
  | stmt (s : Stmt)
  | valueSpec (spec : ValueSpec)
  | typeSpec (spec : TypeSpec)
  | caseClause (c : CaseClause)
  | commClause (c : CommClause)

namespace Node

/-- The nodes directly in a node, in source order. -/
def children : Node → List Node
  | expr (.name _) | expr (.literal _) => []
  | expr (.composite type elems) => type.toList.map expr ++ elems.map expr
  | expr (.keyValue key value) => [expr key, expr value]
  | expr (.funcLit sig body) => signature sig :: body.map stmt
  | expr (.paren x) | expr (.selector x _) | expr (.star x) | expr (.unary _ x) => [expr x]
  | expr (.index x args) => expr x :: args.map expr
  | expr (.slice x low high max) =>
    expr x :: (low.toList ++ high.toList ++ max.toList).map expr
  | expr (.assertion x type) => expr x :: type.toList.map expr
  | expr (.call fn args _) => expr fn :: args.map expr
  | expr (.binary left _ right) => [expr left, expr right]
  | expr (.arrayType len elem) => len.toList.map expr ++ [expr elem]
  | expr (.ellipsis type) => type.toList.map expr
  | expr (.structType fields) => fields.map field
  | expr (.funcType sig) => [signature sig]
  | expr (.interfaceType items) => items.map item
  | expr (.mapType key value) => [expr key, expr value]
  | expr (.chanType _ elem) => [expr elem]
  | field (.mk _ type) => [expr type]
  | signature (.mk params results) => (params ++ results).map field
  | item (.method _ sig) => [signature sig]
  | item (.union terms) => terms.map expr
  | simple (.expr x) | simple (.inc x) | simple (.dec x) => [expr x]
  | simple (.assign left _ right) => (left ++ right).map expr
  | simple (.send chan value) => [expr chan, expr value]
  | stmt .empty | stmt (.branch ..) => []
  | stmt (.simple s) => [simple s]
  | stmt (.valueDecl _ specs) => specs.map valueSpec
  | stmt (.typeDecl specs) => specs.map typeSpec
  | stmt (.goCall call) | stmt (.deferCall call) => [expr call]
  | stmt (.returnWith results) => results.map expr
  | stmt (.block body) => body.map stmt
  | stmt (.labeled _ body) => [stmt body]
  | stmt (.ifThen init cond body orElse) =>
    init.toList.map simple ++ expr cond :: (body ++ orElse.toList).map stmt
  | stmt (.switch _ init tag clauses) =>
    (init.toList ++ tag.toList).map simple ++ clauses.map caseClause
  | stmt (.select clauses) => clauses.map commClause
  | stmt (.loop init cond post body) => init.toList.map simple ++ cond.toList.map expr ++
    post.toList.map simple ++ body.map stmt
  | stmt (.range key value _ operand body) =>
    (key.toList ++ value.toList ++ [operand]).map expr ++ body.map stmt
  | valueSpec (.mk _ type values) => (type.toList ++ values).map expr
  | typeSpec (.mk _ _ type) => [expr type]
  | caseClause (.mk exprs body) => (exprs.getD []).map expr ++ body.map stmt
  | commClause (.mk comm body) => comm.toList.map simple ++ body.map stmt

end Node

/-- `Within m n`: `m` is `n`, or stands in it at some depth. -/
inductive Within : Node → Node → Prop
  | self (n : Node) : Within n n
  | child {m c n : Node} (direct : c ∈ n.children) (deep : Within m c) : Within m n

theorem Within.trans {l m n : Node} (h : Within l m) (hn : Within m n) : Within l n := by
  induction hn with
  | self => exact h
  | child direct _ ih => exact .child direct ih

namespace Node

/-- Everything that stands in `n` has the property. -/
def Every (P : Node → Prop) (n : Node) : Prop := ∀ m, Within m n → P m

variable {P : Node → Prop} {n : Node}

theorem every_iff : n.Every P ↔ P n ∧ ∀ c ∈ n.children, c.Every P := by
  constructor
  · intro h
    exact ⟨h n (.self n), fun c hc m hm => h m (.child hc hm)⟩
  · rintro ⟨hn, hchildren⟩ m hm
    cases hm with
    | self => exact hn
    | child direct deep => exact hchildren _ direct m deep

theorem Every.head (h : n.Every P) : P n := h n (.self n)

theorem Every.within (h : n.Every P) {m : Node} (hm : Within m n) : m.Every P := fun l hl =>
  h l (hl.trans hm)

end Node

end GoRepl.Syntax
