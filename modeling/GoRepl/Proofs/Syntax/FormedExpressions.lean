import GoRepl.Proofs.Syntax.Control
import GoRepl.Proofs.Syntax.Formed

/-! # The parser builds well-formed expressions

* `Gives`: what holds of all that a reader gives.
* `Phrase.Formed`: what holds of all that the reader of a phrase gives.
* `Phrases.Form`: the readers of all phrases give that.  An expression ends in front of an operator
  that binds less tightly than those it may have, so the operators behind it can be put around it.
* `binaryTail_form`: how the operators of an expression are grouped.
* `type_gives`, `unary_gives`, `primaryTail_gives` and the lemmas around them: the grammar of types
  and expressions.
-/

namespace GoRepl.Syntax

open Read Grammar

/-- Whatever `p` gives satisfies `post`. -/
def Gives {α : Type} (post : α → Prop) (p : Read α) : Prop :=
  ∀ s a s', p s = .ok (a, s') → post a

namespace Gives

variable {α β : Type} {post : α → Prop} {post' : β → Prop}

theorem of_pure {a : α} (h : post a) : Gives post (pure a) := by
  intro s a' s' hp
  cases hp
  exact h

theorem fail (f : SyntaxFault) : Gives post (Read.fail f) := by
  intro s a s' hp
  cases hp

theorem unexpected (w : Wanted) : Gives post (Read.unexpected w) := fail _

theorem fail_bind (f : SyntaxFault) (k : α → Read β) : Gives post' (Read.fail f >>= k) := by
  intro s a s' hp
  cases hp

theorem bind {Q : α → Prop} {p : Read α} {f : α → Read β} (hp : Gives Q p)
    (hf : ∀ a, Q a → Gives post' (f a)) : Gives post' (p >>= f) := by
  intro s b s' h
  obtain ⟨a, s₁, ha, hb⟩ := bind_eq_ok.mp h
  exact hf a (hp s a s₁ ha) s₁ b s' hb

/-- The value of a reader is not looked at. -/
theorem any {p : Read α} {f : α → Read β} (hf : ∀ a, Gives post' (f a)) : Gives post' (p >>= f) :=
  bind (Q := fun _ => True) (fun _ _ _ _ => trivial) fun a _ => hf a

theorem mono {p : Read α} {post₁ : α → Prop} (hp : Gives post p) (h : ∀ a, post a → post₁ a) :
    Gives post₁ p := fun s a s' ha => h a (hp s a s' ha)

/-- A list is read one item after the other. -/
theorem cons {p : Read α} {q : Read (List α)} (hp : Gives post p)
    (hq : Gives (fun as => ∀ a ∈ as, post a) q) : Gives (fun as => ∀ a ∈ as, post a)
      (p >>= fun a => q >>= fun as => pure (a :: as)) :=
  bind hp fun _ ha => bind hq fun _ has => of_pure (List.forall_mem_cons.mpr ⟨ha, has⟩)

/-- A list whose items have an end mark each. -/
theorem consEnded {p : Read α} {mark : Read Unit} {q : Read (List α)} (hp : Gives post p)
    (hq : Gives (fun as => ∀ a ∈ as, post a) q) : Gives (fun as => ∀ a ∈ as, post a)
      (p >>= fun a => mark >>= fun _ => q >>= fun as => pure (a :: as)) :=
  bind hp fun _ ha => any fun _ => bind hq fun _ has =>
    of_pure (List.forall_mem_cons.mpr ⟨ha, has⟩)

/-- A list goes on behind a comma. -/
theorem consComma {a : α} {q : Read (List α)} (ha : post a)
    (hq : Gives (fun as => ∀ a ∈ as, post a) q) : Gives (fun as => ∀ a ∈ as, post a)
      (atSymbol .comma >>= fun b =>
        if b = true then skip >>= fun _ => q >>= fun as => pure (a :: as) else pure [a]) := by
  refine any fun b => ?_
  split
  · exact any fun _ => bind hq fun _ has => of_pure (List.forall_mem_cons.mpr ⟨ha, has⟩)
  · exact of_pure (List.forall_mem_singleton.mpr ha)

theorem nested {p : Read α} (h : Gives post p) : Gives post (nested p) := by
  intro s a s' ha
  obtain ⟨s₁, hp, -⟩ := nested_eq_ok.mp ha
  exact h _ a s₁ hp

theorem header {p : Read α} (h : Gives post p) : Gives post (header p) := by
  intro s a s' ha
  obtain ⟨s₁, hp, -⟩ := header_eq_ok.mp ha
  exact h _ a s₁ hp

end Gives

/-! ## The phrases -/

/-- What holds of all that the reader of a phrase gives.  What extends an expression is only said
of readers that go on from a suitable one. -/
def Phrase.Formed : {α : Type} → Phrase α → α → Prop
  | _, binary prec, x => x.Sound ∧ ∀ o ∈ x.operator?, prec ≤ o.precedence
  | _, binaryTail .., _ | _, namesTail, _ => True
  | _, unary, x | _, type, x => x.IsOperand
  | _, primaryTail x, y => x.IsOperand → y.IsOperand
  | _, exprsTail, xs | _, typesTail, xs | _, typeArgsTail, xs | _, unionTail, xs =>
    ∀ x ∈ xs, x.Sound
  | _, args, xs => ∀ x ∈ xs.1, x.Sound
  | _, elems, es => ∀ e ∈ es, e.IsElement
  | _, fields, fs => ∀ f ∈ fs, (Node.field f).Sound ∧ f.type.isPlain = true
  | _, interfaceItems, is => ∀ i ∈ is, (Node.item i).Sound
  | _, params, fs => ∀ f ∈ fs, f.IsParameter
  | _, stmt, s => (Node.stmt s).Sound
  | _, stmts, ss => ∀ s ∈ ss, (Node.stmt s).Sound
  | _, conditional, s => (Node.stmt s).Sound ∧ s.isBranch = true
  | _, caseClauses, cs => ∀ c ∈ cs, (Node.caseClause c).Sound
  | _, commClauses, cs => ∀ c ∈ cs, (Node.commClause c).Sound
  | _, valueSpecs kw first, specs =>
    (∀ spec ∈ specs, (Node.valueSpec spec).Sound) ∧ kw.Lines first specs
  | _, typeSpecs, specs => ∀ spec ∈ specs, (Node.typeSpec spec).Sound

/-- How tightly the next token binds between two operands. -/
def ReadState.precedence (s : ReadState) : Nat := (headKind s.tokens).precedence

/-- The readers of all phrases build well-formed trees. -/
structure Phrases.Form (rec : Phrases) : Prop where
  gives : ∀ {α : Type} (ph : Phrase α), Gives ph.Formed (rec ph)
  /-- Behind an expression there is no operator that it could have gone on with. -/
  stops : ∀ {prec s x s'}, rec (.binary prec) s = .ok (x, s') → s'.precedence ≤ prec - 1
  /-- The next operator may be put around `left`, and so may those behind it. -/
  tail : ∀ {prec left s x s'}, left.Sound → (∀ o ∈ left.operator?, prec ≤ o.precedence) →
    (∀ o ∈ left.operator?, s.precedence ≤ o.precedence) →
    rec (.binaryTail prec left) s = .ok (x, s') →
    (x.Sound ∧ ∀ o ∈ x.operator?, prec ≤ o.precedence) ∧ s'.precedence ≤ prec - 1

theorem unaryOp?_ne_arrow (k : Kind) : unaryOp? k ≠ some .arrow := by
  unfold unaryOp?
  split
  all_goals exact nofun

theorem precedence_of_ne {k : Kind} (hk : ∀ op, k ≠ .symbol (.binary op)) : k.precedence = 0 := by
  unfold Kind.precedence Symbol.precedence
  split
  · split
    · exact absurd rfl (hk _)
    · rfl
  · rfl

section Step

variable {rec : Phrases} (h : Phrases.Form rec)

include h

/-! ### Types -/

theorem types_gives : Gives (fun ts => ts ≠ [] ∧ ∀ t ∈ ts, t.Sound) (types rec) := by
  unfold types
  refine .bind (h.gives .type) fun t ht => .bind (h.gives .typesTail) fun ts hts => .of_pure ?_
  exact ⟨List.cons_ne_nil _ _, List.forall_mem_cons.mpr ⟨ht.toSound, hts⟩⟩

theorem typesTail_gives : Gives (fun ts => ∀ t ∈ ts, t.Sound) (typesTail rec) := by
  unfold typesTail
  refine .any fun b => ?_
  split
  · exact .any fun _ => (types_gives h).mono fun ts hts => hts.2
  · exact .of_pure nofun

theorem typeArgsTail_gives : Gives (fun ts => ∀ t ∈ ts, t.Sound) (typeArgsTail rec) := by
  unfold typeArgsTail
  refine .any fun b => ?_
  split
  · refine .any fun _ => .any fun b => ?_
    split
    · exact .of_pure nofun
    · exact .cons ((h.gives .type).mono fun t ht => ht.toSound) (h.gives .typeArgsTail)
  · exact .of_pure nofun

theorem typeArguments_gives {base : Expr} (hbase : base.IsOperand) :
    Gives Expr.IsOperand (typeArguments rec base) := by
  unfold typeArguments
  refine .any fun second => .any fun b => ?_
  split
  · refine .any fun _ => .bind (types_gives h) fun ts hts => .any fun _ => .of_pure ?_
    exact hbase.index hts.1 hts.2
  · exact .of_pure hbase

theorem namedTail_gives (n : String) : Gives Expr.IsOperand (namedTail rec n) := by
  rw [namedTail_eq]
  refine .any fun b => ?_
  split
  · exact .any fun _ => .any fun f => typeArguments_gives h ((Expr.isOperand_name n).selector f)
  · exact typeArguments_gives h (Expr.isOperand_name n)

theorem arrayTail_gives : Gives Expr.IsOperand (arrayTail rec) := by
  have helem : ∀ len, (∀ n ∈ len, (Node.expr n).Sound ∧ n.isLength = true) →
      Gives Expr.IsOperand (expect .rbrack >>= fun _ => rec .type >>= fun t =>
        pure (Expr.arrayType len t)) :=
    fun len hlen => .any fun _ => .bind (h.gives .type) fun t ht => .of_pure (ht.arrayType hlen)
  unfold arrayTail
  refine .any fun k => ?_
  split
  · exact helem none nofun
  · exact .any fun _ => helem (some (.ellipsis none))
      (forall_mem_some ⟨Expr.every_ellipsis nofun, rfl⟩)
  · exact .bind (.nested (h.gives (.binary 1))) fun n hn => helem (some n)
      (forall_mem_some ⟨hn.1.every, Expr.isLength_of_isPlain hn.1.plain⟩)

theorem paramList_gives : Gives (fun fs => ∀ f ∈ fs, f.IsParameter) (paramList rec) := by
  unfold paramList
  exact .any fun _ => .bind (h.gives .params) fun fs hfs => .any fun _ => .of_pure hfs

theorem signature_gives : Gives (fun sig => (Node.signature sig).Sound) (signature rec) := by
  unfold signature
  refine .bind (paramList_gives h) fun ps hps => .any fun k => ?_
  split
  · exact .bind (paramList_gives h) fun rs hrs => .of_pure (Field.sound_signature hps hrs)
  split
  · refine .bind (h.gives .type) fun t ht => .of_pure (Field.sound_signature hps ?_)
    exact List.forall_mem_singleton.mpr (Field.isParameter_mk ht.toSound [])
  · exact .of_pure (Field.sound_signature hps nofun)

theorem structType_gives : Gives Expr.IsOperand (structType rec) := by
  unfold structType
  refine .any fun _ => .any fun _ => .bind (h.gives .fields) fun fs hfs => .any fun _ => ?_
  exact .of_pure (Expr.isOperand_structType hfs)

theorem interfaceType_gives : Gives Expr.IsOperand (interfaceType rec) := by
  unfold interfaceType
  refine .any fun _ => .any fun _ => .bind (h.gives .interfaceItems) fun is his => .any fun _ => ?_
  exact .of_pure (Expr.isOperand_interfaceType his)

theorem type_gives : Gives Expr.IsOperand (type rec) := by
  unfold type
  refine .any fun k => ?_
  split
  · exact .any fun _ => namedTail_gives h _
  · exact .any fun _ => arrayTail_gives h
  · exact structType_gives h
  · exact interfaceType_gives h
  · exact .any fun _ => .bind (h.gives .type) fun t ht => .of_pure ht.star
  · exact .any fun _ => .bind (signature_gives h) fun s hs => .of_pure (Expr.isOperand_funcType hs)
  · refine .any fun _ => .any fun _ => .bind (h.gives .type) fun k hk => .any fun _ => ?_
    exact .bind (h.gives .type) fun v hv => .of_pure (Expr.isOperand_mapType hk hv)
  · have helem : ∀ dir, Gives Expr.IsOperand (rec .type >>= fun t =>
        pure (Expr.chanType dir t)) :=
      fun dir => .bind (h.gives .type) fun t ht => .of_pure (ht.chanType dir)
    refine .any fun _ => .any fun b => ?_
    split
    · exact .any fun _ => helem _
    · exact helem _
  · exact .any fun _ => .any fun _ => .bind (h.gives .type) fun t ht => .of_pure (ht.chanType _)
  · refine .any fun _ => .bind (h.gives .type) fun t ht => .any fun _ => ?_
    exact .of_pure (Expr.isOperand_paren ht.toSound)
  · exact .unexpected _

theorem params_gives : Gives (fun fs => ∀ f ∈ fs, f.IsParameter) (params rec) := by
  unfold params
  refine .any fun b => ?_
  split
  · exact .of_pure nofun
  refine .any fun k => ?_
  extract_lets named typed
  have htyped : ∀ ns, Gives (fun fs => ∀ f ∈ fs, f.IsParameter) (typed ns) := by
    intro ns
    refine .any fun b => ?_
    split
    · exact .any fun _ => .bind (type_gives h) fun t ht =>
        .consComma (Field.isParameter_ellipsis ht.toSound ns) (h.gives .params)
    · exact .bind (type_gives h) fun t ht =>
        .consComma (Field.isParameter_mk ht.toSound ns) (h.gives .params)
  refine .any fun second => ?_
  split
  · exact .any fun n => htyped [n]
  · exact htyped []

theorem field_gives :
    Gives (fun f => (Node.field f).Sound ∧ f.type.isPlain = true) (field rec) := by
  unfold field
  refine .any fun k => ?_
  extract_lets typed named
  have htyped : ∀ ns, Gives (fun f => (Node.field f).Sound ∧ f.type.isPlain = true)
      (typed ns) := by
    intro ns
    refine .bind (type_gives h) fun t ht => .any fun k => ?_
    have hfield : (Node.field (.mk ns t)).Sound ∧ t.isPlain = true :=
      ⟨Field.sound_mk ht.every ns, ht.plain⟩
    split
    · exact .any fun _ => .of_pure hfield
    · exact .of_pure hfield
  have hnamed : ∀ embedded, Gives (fun f => (Node.field f).Sound ∧ f.type.isPlain = true)
      (named embedded) := by
    intro embedded
    simp only [named]
    split
    · exact htyped []
    · exact .any fun ns => htyped ns
  split
  · exact hnamed true
  · exact .any fun second => hnamed _
  · exact .fail_bind _ _

theorem fields_gives :
    Gives (fun fs => ∀ f ∈ fs, (Node.field f).Sound ∧ f.type.isPlain = true) (fields rec) := by
  unfold fields
  refine .any fun b => ?_
  split
  · exact .of_pure nofun
  · exact .consEnded (field_gives h) (h.gives .fields)

theorem unionTerm_gives : Gives Expr.Sound (unionTerm rec) := by
  unfold unionTerm
  refine .any fun b => ?_
  split
  · exact .any fun _ => .bind (type_gives h) fun t ht => .of_pure (ht.unary .tilde nofun).toSound
  · exact (type_gives h).mono fun t ht => ht.toSound

theorem unionTail_gives : Gives (fun ts => ∀ t ∈ ts, t.Sound) (unionTail rec) := by
  unfold unionTail
  refine .any fun b => ?_
  split
  · exact .any fun _ => .cons (unionTerm_gives h) (h.gives .unionTail)
  · exact .of_pure nofun

theorem interfaceItem_gives : Gives (fun i => (Node.item i).Sound) (interfaceItem rec) := by
  unfold interfaceItem
  refine .any fun second => .any fun k => ?_
  split
  · exact .any fun _ => .bind (signature_gives h) fun s hs => .of_pure (Node.sound_method hs _)
  · refine .bind (unionTerm_gives h) fun t ht => .bind (h.gives .unionTail) fun ts hts => ?_
    exact .of_pure (Node.sound_union (List.forall_mem_cons.mpr ⟨ht, hts⟩))

theorem interfaceItems_gives :
    Gives (fun is => ∀ i ∈ is, (Node.item i).Sound) (interfaceItems rec) := by
  unfold interfaceItems
  refine .any fun b => ?_
  split
  · exact .of_pure nofun
  · exact .consEnded (interfaceItem_gives h) (h.gives .interfaceItems)

/-! ### Expressions -/

theorem funcOperand_gives : Gives Expr.IsOperand (funcOperand rec) := by
  unfold funcOperand
  refine .bind (signature_gives h) fun s hs => .any fun b => ?_
  split
  · refine .bind (Q := fun body => ∀ s ∈ body, (Node.stmt s).Sound) (.nested (.any fun _ => ?_))
      fun body hbody => .of_pure (Expr.isOperand_funcLit hs hbody)
    exact .bind (h.gives .stmts) fun body hbody => .any fun _ => .of_pure hbody
  · exact .of_pure (Expr.isOperand_funcType hs)

theorem operand_gives : Gives Expr.IsOperand (operand rec) := by
  unfold operand
  refine .any fun k => ?_
  split
  · exact .any fun _ => .of_pure (Expr.isOperand_name _)
  · exact .any fun _ => .of_pure (Expr.isOperand_literal _)
  · refine .any fun _ => .bind (.nested (h.gives (.binary 1))) fun x hx => .any fun _ => ?_
    exact .of_pure (Expr.isOperand_paren hx.1)
  · exact .any fun _ => funcOperand_gives h
  all_goals first | exact type_gives h | exact .unexpected _

theorem primary_gives : Gives Expr.IsOperand (primary rec) := by
  unfold primary
  exact .bind (operand_gives h) fun x hx => (h.gives (.primaryTail x)).mono fun y hy => hy hx

omit h in
theorem receive_gives {x : Expr} (hx : x.IsOperand) : Gives Expr.IsOperand (receive x) := by
  unfold receive
  split
  · exact .of_pure (hx.of_chanType.chanType _)
  · exact .fail _
  · rename_i hnot
    exact .of_pure (hx.unary .arrow fun _ dir t hchan => hnot dir t hchan)

theorem unary_gives : Gives Expr.IsOperand (unary rec) := by
  unfold unary
  refine .any fun k => ?_
  split
  · rename_i op hop
    refine .any fun _ => .bind (h.gives .unary) fun x hx => .of_pure (hx.unary op ?_)
    rintro rfl
    exact absurd hop (unaryOp?_ne_arrow k)
  split
  · exact .any fun _ => .bind (h.gives .unary) fun x hx => receive_gives hx
  split
  · exact .any fun _ => .bind (h.gives .unary) fun x hx => .of_pure hx.star
  · exact primary_gives h

/-- Behind an expression no operator stands that it could have gone on with, and the one that does
stand there may be put around it. -/
theorem binaryTail_form {prec : Nat} {left x : Expr} {s s' : ReadState} (hleft : left.Sound)
    (hprec : ∀ o ∈ left.operator?, prec ≤ o.precedence)
    (hnext : ∀ o ∈ left.operator?, s.precedence ≤ o.precedence)
    (hx : binaryTail rec prec left s = .ok (x, s')) :
    (x.Sound ∧ ∀ o ∈ x.operator?, prec ≤ o.precedence) ∧ s'.precedence ≤ prec - 1 := by
  have hs : s.precedence = (headKind s.tokens).precedence := rfl
  unfold binaryTail at hx
  rw [peek_bind] at hx
  generalize headKind s.tokens = k at hx hs
  split at hx
  · rename_i op
    change s.precedence = op.precedence at hs
    split at hx
    · rename_i hlow
      cases hx
      exact ⟨⟨hleft, hprec⟩, by omega⟩
    · rename_i hhigh
      obtain ⟨⟨⟩, s₁, -, hrest⟩ := bind_eq_ok.mp hx
      obtain ⟨right, s₂, hright, htail⟩ := bind_eq_ok.mp hrest
      obtain ⟨hsound, hrprec⟩ := h.gives (.binary (op.precedence + 1)) _ _ _ hright
      -- the right operand stops in front of what binds no tighter than `op`, so that goes around it
      have hstop : s₂.precedence ≤ op.precedence := h.stops hright
      refine h.tail (hleft.binary hsound (fun o ho => hs ▸ hnext o ho) hrprec) ?_ ?_ htail
      · rintro o ⟨⟩
        omega
      · rintro o ⟨⟩
        exact hstop
  · rename_i hnot
    cases hx
    refine ⟨⟨hleft, hprec⟩, ?_⟩
    rw [hs, precedence_of_ne hnot]
    exact Nat.zero_le _

theorem binary_form {prec : Nat} {x : Expr} {s s' : ReadState}
    (hx : binary rec prec s = .ok (x, s')) :
    (x.Sound ∧ ∀ o ∈ x.operator?, prec ≤ o.precedence) ∧ s'.precedence ≤ prec - 1 := by
  unfold binary at hx
  obtain ⟨left, s₁, hleft, htail⟩ := bind_eq_ok.mp hx
  have hoperand := unary_gives h _ _ _ hleft
  refine h.tail hoperand.toSound ?_ ?_ htail
  all_goals
    rw [hoperand.bare]
    exact nofun

theorem expr_gives : Gives Expr.Sound (expr rec) := fun _ _ _ hx => (binary_form h hx).1.1

theorem exprs_gives : Gives (fun xs => xs ≠ [] ∧ ∀ x ∈ xs, x.Sound) (exprs rec) := by
  unfold exprs
  refine .bind (expr_gives h) fun x hx => .bind (h.gives .exprsTail) fun xs hxs => .of_pure ?_
  exact ⟨List.cons_ne_nil _ _, List.forall_mem_cons.mpr ⟨hx, hxs⟩⟩

theorem exprsTail_gives : Gives (fun xs => ∀ x ∈ xs, x.Sound) (exprsTail rec) := by
  unfold exprsTail
  refine .any fun b => ?_
  split
  · exact .any fun _ => (exprs_gives h).mono fun xs hxs => hxs.2
  · exact .of_pure nofun

theorem args_gives : Gives (fun as => ∀ x ∈ as.1, x.Sound) (args rec) := by
  unfold args
  refine .any fun b => ?_
  split
  · exact .of_pure nofun
  refine .bind (expr_gives h) fun x hx => ?_
  have hmore : ∀ spread, Gives (fun as => ∀ x ∈ as.1, x.Sound) (atSymbol .comma >>= fun b =>
      if b = true then skip >>= fun _ => rec .args >>= fun more =>
        pure (x :: more.1, spread || more.2)
      else pure ([x], spread)) := by
    intro spread
    refine .any fun b => ?_
    split
    · refine .any fun _ => .bind (h.gives .args) fun more hmore => .of_pure ?_
      exact List.forall_mem_cons.mpr ⟨hx, hmore⟩
    · exact .of_pure (List.forall_mem_singleton.mpr hx)
  refine .any fun spread => ?_
  split
  · exact .any fun _ => hmore spread
  · exact hmore spread

theorem bound_gives : Gives (fun o => ∀ b ∈ o, b.Sound) (indexOrSlice.bound rec) := by
  unfold indexOrSlice.bound
  have hrest : ∀ b : Bool, Gives (fun o => ∀ b ∈ o, b.Sound)
      (if b = true then pure none else rec (.binary 1) >>= fun i => pure (some i)) := by
    intro b
    split
    · exact .of_pure nofun
    · exact .bind (h.gives (.binary 1)) fun i hi => .of_pure (forall_mem_some hi.1)
  exact .any fun b => .any fun c => hrest _

omit h in
/-- The bounds of a slice behind the first one, `low`. -/
def sliceTail (rec : Phrases) (x : Expr) (low : Option Expr) : Read (Expr × Bool) := do
  skip
  let high ← indexOrSlice.bound rec
  if ← atSymbol .colon then do
    skip
    let max ← indexOrSlice.bound rec
    return (.slice x low high max, !(high.isSome && max.isSome))
  else return (.slice x low high none, false)

theorem sliceTail_gives {x : Expr} (hx : x.IsOperand) (low : Option Expr)
    (hlow : ∀ b ∈ low, b.Sound) :
    Gives (fun made => made.2 = false → made.1.IsOperand) (sliceTail rec x low) := by
  unfold sliceTail
  refine .any fun _ => .bind (bound_gives h) fun high hhigh => .any fun b => ?_
  have hbounds : ∀ max : Option Expr, (∀ b ∈ max, b.Sound) →
      ∀ b ∈ low.toList ++ high.toList ++ max.toList, b.Sound := by
    intro max hmax b hb
    simp only [List.mem_append, Option.mem_toList] at hb
    exact hb.elim (fun hb => hb.elim (hlow b) (hhigh b)) (hmax b)
  split
  · refine .any fun _ => .bind (bound_gives h) fun max hmax => .of_pure fun hboth => ?_
    refine hx.slice (fun _ => ?_) (hbounds max hmax)
    rw [Bool.not_eq_false', Bool.and_eq_true] at hboth
    exact hboth.1
  · exact .of_pure fun _ => hx.slice nofun (hbounds none nofun)

/-- Behind the opening bracket stands a slice without a lower bound, or a bound or an index. -/
theorem made_gives {x : Expr} (hx : x.IsOperand) :
    Gives (fun made => made.2 = false → made.1.IsOperand) (atSymbol .colon >>= fun b =>
      if b = true then sliceOrIndex rec x none
      else expr rec >>= fun i => sliceOrIndex rec x (some i)) := by
  have hindex : Gives (fun made => made.2 = false → made.1.IsOperand)
      (expr rec >>= fun i => sliceOrIndex rec x (some i)) := by
    refine .bind (expr_gives h) fun i hi => .any fun b => ?_
    split
    · exact sliceTail_gives h hx (some i) (forall_mem_some hi)
    · refine .bind (h.gives .typeArgsTail) fun ts hts => .of_pure fun _ => ?_
      exact hx.index (List.cons_ne_nil _ _) (List.forall_mem_cons.mpr ⟨hi, hts⟩)
  -- both readers look at the same token, so the case of neither a bound nor a colon never comes up
  intro s made s' hmade
  rw [atSymbol_bind] at hmade
  cases hb : headKind s.tokens == .symbol .colon with
  | true =>
    rw [hb, if_pos rfl] at hmade
    change (atSymbol .colon >>= fun b => if b = true then sliceTail rec x none else _) s = _
      at hmade
    rw [atSymbol_bind, hb, if_pos rfl] at hmade
    exact sliceTail_gives h hx none nofun s made s' hmade
  | false =>
    rw [hb, if_neg Bool.false_ne_true] at hmade
    exact hindex s made s' hmade

theorem indexOrSlice_gives {x : Expr} (hx : x.IsOperand) :
    Gives Expr.IsOperand (indexOrSlice rec x) := by
  rw [indexOrSlice_eq]
  refine .any fun _ => .bind (.nested (made_gives h hx)) fun made hmade => .any fun _ => ?_
  split
  · exact .fail _
  · rename_i hboth
    exact .of_pure (hmade (Bool.eq_false_iff.mpr hboth))

theorem call_gives {fn : Expr} (hfn : fn.IsOperand) :
    Gives (fun x => x.IsOperand ∧ x.isCall = true) (call rec fn) := by
  unfold call
  refine .any fun _ => .bind (.nested (h.gives .args)) fun as has => .any fun _ => .of_pure ?_
  exact ⟨hfn.call has _, rfl⟩

theorem composite_gives {t : Option Expr} {post : Expr → Prop}
    (hpost : ∀ es : List Expr, (∀ e ∈ es, e.IsElement) → post (.composite t es)) :
    Gives post (composite rec t) := by
  unfold composite
  refine .any fun _ => .bind (.nested (h.gives .elems)) fun es hes => .any fun _ => ?_
  exact .of_pure (hpost es hes)

theorem elem_gives : Gives Expr.IsEntry (elem rec) := by
  unfold elem
  refine .any fun b => ?_
  split
  · exact composite_gives h fun es hes => Expr.isEntry_composite nofun hes
  · exact (expr_gives h).mono fun x hx => hx.isEntry

theorem elems_gives : Gives (fun es => ∀ e ∈ es, e.IsElement) (elems rec) := by
  unfold elems
  refine .any fun b => ?_
  split
  · exact .of_pure nofun
  refine .bind (elem_gives h) fun k hk => .any fun b => ?_
  split
  · exact .any fun _ => .bind (elem_gives h) fun v hv =>
      .consComma (hk.keyValue hv) (h.gives .elems)
  · exact .consComma hk.isElement (h.gives .elems)

theorem selectorOrAssertion_gives {x : Expr} (hx : x.IsOperand) :
    Gives Expr.IsOperand (selectorOrAssertion rec x) := by
  unfold selectorOrAssertion
  refine .any fun k => ?_
  split
  · exact .any fun _ => .of_pure (hx.selector _)
  · have htyped : ∀ type, (∀ t ∈ type, t.Sound) →
        Gives Expr.IsOperand (expect .rparen >>= fun _ => pure (Expr.assertion x type)) :=
      fun type htype => .any fun _ => .of_pure (hx.assertion htype)
    refine .any fun _ => .any fun k => ?_
    split
    · exact .any fun _ => htyped none nofun
    · exact .bind (h.gives .type) fun t ht => htyped (some t) (forall_mem_some ht.toSound)
  · exact .unexpected _

theorem primaryTail_gives (x : Expr) :
    Gives (fun y => x.IsOperand → y.IsOperand) (primaryTail rec x) := by
  have htail : ∀ {p : Read Expr}, (x.IsOperand → Gives Expr.IsOperand p) →
      Gives (fun y => x.IsOperand → y.IsOperand) (p >>= fun y => rec (.primaryTail y)) := by
    intro p hp s z s' hz hx
    obtain ⟨y, s₁, hy, hrest⟩ := bind_eq_ok.mp hz
    exact h.gives (.primaryTail y) _ _ _ hrest (hp hx _ _ _ hy)
  unfold primaryTail
  refine .any fun k => ?_
  split
  · exact .any fun _ => htail fun hx => selectorOrAssertion_gives h hx
  · exact htail fun hx => indexOrSlice_gives h hx
  · exact htail fun hx => (call_gives h hx).mono fun y hy => hy.1
  · refine .any fun l => ?_
    split
    · rename_i hopens
      rw [opensLiteral, Bool.and_eq_true] at hopens
      exact htail fun hx => composite_gives h fun es hes => hx.composite hopens.1 hes
    · exact .of_pure id
  · exact .of_pure id

end Step

end GoRepl.Syntax
