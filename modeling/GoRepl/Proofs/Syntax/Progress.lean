import GoRepl.Proofs.Syntax.BeforeBlock

/-! # Readers make progress

A reader of the grammar calls the reader of another phrase only behind a token that it has taken,
and it never drops an end mark.  So it is enough to know of the phrases nested in it what they do on
fewer tokens, and what stands behind an end mark makes no difference.

* `Trailer`: tokens that begin with an end mark.
* `Guarded`: two readers, one of which has an ending behind its tokens, that do the same.
* `Guarded.bind` and the lemmas behind it: one for each way to compose readers.
* `Phrase.takes`, `Phrases.Guard`: the readers of all phrases do so on few tokens.
* `type_guarded` and the lemmas around it: the grammar of types.
-/

namespace GoRepl.Syntax

open Read Grammar

/-- Tokens that begin with an end mark, or none. -/
structure Trailer where
  tokens : List Token
  marked : headKind tokens = .eof

variable {α β : Type} {z : Trailer} {n : Nat} {fresh strict : Bool} {ts : List Token}

/-- What a run gives if the ending stands behind the tokens that it leaves. -/
def Trailer.behind (z : Trailer) :
    Except ReadFault (α × ReadState) → Except ReadFault (α × ReadState)
  | .ok (a, s) => .ok (a, { s with tokens := s.tokens ++ z.tokens })
  | .error f => .error { f with rest := f.rest ++ z.tokens }

/-- A run on `ts` leaves an end of them, which with `strict` has fewer tokens; or it stops at an end
of them, but not because a bound is used up. -/
def Proceeds (strict : Bool) (ts : List Token) : Except ReadFault (α × ReadState) → Prop
  | .ok (_, s) => s.tokens <:+ ts ∧ s.tokens.length + strict.toNat ≤ ts.length
  | .error f => f.rest <:+ ts ∧ f.fault ≠ .tooDeep

/-- On `ts`, which has fewer than `n` tokens, `p` proceeds, and `q` does the same with the ending
behind.  With `fresh` there may be one token more, because none has been taken yet. -/
def Guarded (z : Trailer) (n : Nat) (fresh strict : Bool) (ts : List Token) (p q : Read α) : Prop :=
  ts.length < n + fresh.toNat → ∀ l,
    q ⟨ts ++ z.tokens, l⟩ = z.behind (p ⟨ts, l⟩) ∧ Proceeds strict ts (p ⟨ts, l⟩)

theorem isSemicolon_ne_eof {k : Kind} (hk : k.isSemicolon = true) : (k == .eof) = false := by
  rcases isSemicolon_iff.mp hk with rfl | rfl <;> rfl

theorem headKind_append (z : Trailer) (ts : List Token) :
    headKind (ts ++ z.tokens) = headKind ts := by
  cases ts with
  | nil => exact z.marked
  | cons t ts => rfl

theorem Proceeds.trans {second : Bool} {zs : List Token} {r : Except ReadFault (α × ReadState)}
    (h : Proceeds second zs r) (first : Bool) (hsuffix : zs <:+ ts)
    (hlen : zs.length + first.toNat ≤ ts.length) : Proceeds (first || second) ts r := by
  cases r with
  | error f => exact ⟨h.1.trans hsuffix, h.2⟩
  | ok x =>
    obtain ⟨hleft, htaken⟩ := h
    have hor : (first || second).toNat ≤ first.toNat + second.toNat := by
      cases first <;> cases second <;> decide
    exact ⟨hleft.trans hsuffix, by omega⟩

namespace Guarded

variable {p q : Read α} {k : Kind} {sym : Symbol}

theorem of_pure (a : α) : Guarded z n fresh false ts (pure a) (pure a) :=
  fun _ _ => ⟨rfl, List.suffix_refl _, Nat.le_refl _⟩

theorem fail (f : SyntaxFault) (hf : f ≠ .tooDeep) :
    Guarded z n fresh strict ts (Read.fail f : Read α) (Read.fail f) :=
  fun _ _ => ⟨rfl, List.suffix_refl _, hf⟩

theorem unexpected (w : Wanted) :
    Guarded z n fresh strict ts (Read.unexpected w : Read α) (Read.unexpected w) :=
  fail _ SyntaxFault.noConfusion

theorem fail_bind (f : SyntaxFault) (hf : f ≠ .tooDeep) (k k' : β → Read α) :
    Guarded z n fresh strict ts (Read.fail f >>= k) (Read.fail f >>= k') :=
  fun _ _ => ⟨rfl, List.suffix_refl _, hf⟩

theorem unexpected_bind (w : Wanted) (k k' : β → Read α) :
    Guarded z n fresh strict ts (Read.unexpected w >>= k) (Read.unexpected w >>= k') :=
  fail_bind _ SyntaxFault.noConfusion k k'

/-- A reader that takes a token is one that may. -/
theorem lower (h : Guarded z n fresh true ts p q) : Guarded z n fresh strict ts p q := by
  intro hlen l
  obtain ⟨hsame, hproceeds⟩ := h hlen l
  refine ⟨hsame, ?_⟩
  cases hr : p ⟨ts, l⟩ with
  | error f =>
    rw [hr] at hproceeds
    exact hproceeds
  | ok x =>
    rw [hr] at hproceeds
    exact ⟨hproceeds.1, Nat.le_trans (Nat.add_le_add_left (Bool.toNat_le strict) _) hproceeds.2⟩

theorem bind_of {first second : Bool} {f g : α → Read β} (hp : Guarded z n fresh first ts p q)
    (hf : ∀ a zs, Guarded z n (!first && fresh) second zs (f a) (g a)) :
    Guarded z n fresh (first || second) ts (p >>= f) (q >>= g) := by
  intro hlen l
  obtain ⟨hsame, hproceeds⟩ := hp hlen l
  cases hr : p ⟨ts, l⟩ with
  | error e =>
    rw [hr] at hsame hproceeds
    rw [bind_of_error hr, bind_of_error hsame]
    exact ⟨rfl, hproceeds⟩
  | ok x =>
    obtain ⟨a, zs, l'⟩ := x
    rw [hr] at hsame hproceeds
    obtain ⟨hsuffix, hzs⟩ := hproceeds
    have hlen' : zs.length < n + (!first && fresh).toNat := by
      cases first with
      | false =>
        simp only [Bool.not_false, Bool.true_and, Bool.toNat_false] at hzs ⊢
        omega
      | true =>
        have hfresh := Bool.toNat_le fresh
        simp only [Bool.not_true, Bool.false_and, Bool.toNat_false, Bool.toNat_true] at hzs ⊢
        omega
    obtain ⟨hsame', hproceeds'⟩ := hf a zs hlen' l'
    rw [bind_of_ok hr, bind_of_ok hsame]
    exact ⟨hsame', hproceeds'.trans first hsuffix hzs⟩

/-- Behind a reader that takes a token, phrases may be read. -/
theorem bind {f g : α → Read β} (hp : Guarded z n fresh true ts p q)
    (hf : ∀ a zs, Guarded z n false false zs (f a) (g a)) :
    Guarded z n fresh strict ts (p >>= f) (q >>= g) := (bind_of hp hf).lower

theorem behind {f g : α → Read β} (hp : Guarded z n fresh false ts p q)
    (hf : ∀ a zs, Guarded z n fresh strict zs (f a) (g a)) :
    Guarded z n fresh strict ts (p >>= f) (q >>= g) := bind_of hp hf

/-! ## Looking at tokens -/

theorem peek {f g : Kind → Read α}
    (h : ∀ k, headKind ts = k → Guarded z n fresh strict ts (f k) (g k)) :
    Guarded z n fresh strict ts (peek >>= f) (peek >>= g) := by
  intro hlen l
  rw [peek_bind, peek_bind, headKind_append]
  exact h _ rfl hlen l

/-- At the end of the tokens it may be seen what stands behind the end mark. -/
theorem peekSecond {f g : Kind → Read α}
    (h : ∀ k, headKind ts.tail = k → Guarded z n fresh strict ts (f k) (g k))
    (hnil : ts = [] → ∀ k, Guarded z n fresh strict ts (f .eof) (g k)) :
    Guarded z n fresh strict ts (peekSecond >>= f) (peekSecond >>= g) := by
  intro hlen l
  cases ts with
  | nil => exact hnil rfl _ hlen l
  | cons t ts =>
    change g (headKind (ts ++ z.tokens)) ⟨t :: ts ++ z.tokens, l⟩ =
      z.behind (f (headKind ts) ⟨t :: ts, l⟩) ∧ _
    rw [headKind_append]
    exact h _ rfl hlen l

theorem level {f g : Int → Read α} (h : ∀ l, Guarded z n fresh strict ts (f l) (g l)) :
    Guarded z n fresh strict ts (level >>= f) (level >>= g) := fun hlen l => h l hlen l

theorem atSymbol {f g : Bool → Read α}
    (htrue : headKind ts = .symbol sym → Guarded z n fresh strict ts (f true) (g true))
    (hfalse : Guarded z n fresh strict ts (f false) (g false)) :
    Guarded z n fresh strict ts (atSymbol sym >>= f) (atSymbol sym >>= g) := by
  intro hlen l
  rw [atSymbol_bind, atSymbol_bind, headKind_append]
  cases hb : headKind ts == .symbol sym with
  | true => exact htrue (eq_of_beq hb) hlen l
  | false => exact hfalse hlen l

theorem atSemicolon {f g : Bool → Read α}
    (htrue : (headKind ts).isSemicolon = true → Guarded z n fresh strict ts (f true) (g true))
    (hfalse : Guarded z n fresh strict ts (f false) (g false)) :
    Guarded z n fresh strict ts (atSemicolon >>= f) (atSemicolon >>= g) := by
  intro hlen l
  rw [atSemicolon_bind, atSemicolon_bind, headKind_append]
  cases hb : (headKind ts).isSemicolon with
  | true => exact htrue hb hlen l
  | false => exact hfalse hlen l

theorem atListEnd {f g : Bool → Read α} (htrue : Guarded z n fresh strict ts (f true) (g true))
    (hfalse : headKind ts ≠ .eof → Guarded z n fresh strict ts (f false) (g false)) :
    Guarded z n fresh strict ts (atListEnd sym >>= f) (atListEnd sym >>= g) := by
  refine peek (f := fun k => f (k == .symbol sym || k == .eof))
    (g := fun k => g (k == .symbol sym || k == .eof)) fun k hk => ?_
  cases hb : k == .symbol sym || k == .eof with
  | true => exact htrue
  | false =>
    refine hfalse fun he => ?_
    rw [← hk, he, beq_self_eq_true, Bool.or_true] at hb
    cases hb

/-! ## Taking tokens -/

theorem skip (hk : headKind ts = k) (hne : (k == .eof) = false) :
    Guarded z n fresh true ts Read.skip Read.skip := by
  intro _ l
  cases ts with
  | nil =>
    rw [← hk] at hne
    cases hne
  | cons t ts => exact ⟨rfl, List.suffix_cons t ts, Nat.le_refl _⟩

/-- What stands behind the token that is dropped is known. -/
theorem skip_tail {f g : Unit → Read α} (hne : headKind ts ≠ .eof)
    (h : Guarded z n false false ts.tail (f ()) (g ())) :
    Guarded z n fresh strict ts (Read.skip >>= f) (Read.skip >>= g) := by
  refine lower fun hlen l => ?_
  cases ts with
  | nil => exact absurd rfl hne
  | cons t ts =>
    have hfresh := Bool.toNat_le fresh
    have hlen' : ts.length < n + false.toNat := by
      rw [List.length_cons] at hlen
      rw [Bool.toNat_false]
      omega
    obtain ⟨hsame, hproceeds⟩ := h hlen' l
    exact ⟨hsame, hproceeds.trans true (List.suffix_cons t ts) (Nat.le_refl _)⟩

theorem expect (sym : Symbol) : Guarded z n fresh true ts (expect sym) (expect sym) :=
  atSymbol (fun hk => skip hk rfl) (unexpected _)

/-- More of a list is read behind a comma. -/
theorem moreBehindComma {more more' : Read β} (h : ∀ zs, Guarded z n false false zs more more')
    (join : β → α) (last : α) : Guarded z n fresh false ts
      (Read.atSymbol .comma >>= fun b =>
        if b = true then Read.skip >>= fun _ => more >>= fun x => pure (join x) else pure last)
      (Read.atSymbol .comma >>= fun b =>
        if b = true then Read.skip >>= fun _ => more' >>= fun x => pure (join x)
        else pure last) := by
  refine atSymbol (fun hk => bind (skip hk rfl) fun _ _ => ?_) (of_pure _)
  exact behind (h _) fun x _ => of_pure _

theorem expectKeyword (w : Keyword) :
    Guarded z n fresh true ts (expectKeyword w) (expectKeyword w) := by
  refine peek fun k hk => ?_
  split
  · rename_i hw
    exact skip (hk.trans (eq_of_beq hw)) rfl
  · exact unexpected _

theorem expectName : Guarded z n fresh true ts expectName expectName := by
  refine peek fun k hk => ?_
  split
  · exact bind (skip hk rfl) fun _ _ => of_pure _
  · exact unexpected _

theorem statementEnd : Guarded z n fresh false ts statementEnd statementEnd := by
  refine peek fun k hk => ?_
  split
  · exact lower (skip hk rfl)
  · exact lower (skip hk rfl)
  · exact of_pure ()
  · exact of_pure ()
  · exact of_pure ()
  · exact unexpected _

theorem fragmentEnd : Guarded z n fresh false ts fragmentEnd fragmentEnd := by
  have hend : ∀ fresh zs, Guarded z n fresh false zs
      (do if (← Read.peek) == .eof then pure () else Read.fail .trailing)
      (do if (← Read.peek) == .eof then pure () else Read.fail .trailing) := by
    intro fresh zs
    refine peek fun k _ => ?_
    split
    · exact of_pure _
    · exact fail _ SyntaxFault.noConfusion
  exact atSemicolon (fun hk => bind (skip rfl (isSemicolon_ne_eof hk)) fun _ _ => hend _ _)
    (hend _ _)

/-! ## Nesting levels -/

theorem nested (h : Guarded z n fresh strict ts p q) :
    Guarded z n fresh strict ts (nested p) (nested q) := by
  intro hlen l
  obtain ⟨hsame, hproceeds⟩ := h hlen (l + 1)
  cases hr : p ⟨ts, l + 1⟩ with
  | error f =>
    rw [hr] at hsame hproceeds
    rw [nested_eq_error.mpr hsame, nested_eq_error.mpr hr]
    exact ⟨rfl, hproceeds⟩
  | ok x =>
    rw [hr] at hsame hproceeds
    rw [nested_eq_ok.mpr ⟨_, hsame, rfl⟩, nested_eq_ok.mpr ⟨_, hr, rfl⟩]
    exact ⟨rfl, hproceeds⟩

theorem header (h : Guarded z n fresh strict ts p q) :
    Guarded z n fresh strict ts (header p) (header q) := by
  intro hlen l
  obtain ⟨hsame, hproceeds⟩ := h hlen (-1)
  cases hr : p ⟨ts, -1⟩ with
  | error f =>
    rw [hr] at hsame hproceeds
    rw [header_eq_error.mpr hsame, header_eq_error.mpr hr]
    exact ⟨rfl, hproceeds⟩
  | ok x =>
    rw [hr] at hsame hproceeds
    rw [header_eq_ok.mpr ⟨_, hsame, rfl⟩, header_eq_ok.mpr ⟨_, hr, rfl⟩]
    exact ⟨rfl, hproceeds⟩

end Guarded

/-- The phrases that begin with a token of their own. -/
def Phrase.takes : Phrase α → Bool
  | .binary _ | .unary | .type | .conditional => true
  | _ => false

/-- On fewer than `n` tokens the readers of all phrases proceed, and do the same with the trailer
behind. -/
def Phrases.Guard (z : Trailer) (n : Nat) (rec rec' : Phrases) : Prop :=
  ∀ {α : Type} (ph : Phrase α) (ts : List Token),
    Guarded z n false ph.takes ts (rec ph) (rec' ph)

/-! ## Types -/

section Types

variable {rec rec' : Phrases} (h : Phrases.Guard z n rec rec')

include h

theorem names_guarded : Guarded z n fresh true ts (names rec) (names rec') := by
  unfold names
  exact .bind .expectName fun m _ => .behind (h .namesTail _) fun ms _ => .of_pure _

theorem namesTail_guarded : Guarded z n fresh false ts (namesTail rec) (namesTail rec') := by
  unfold namesTail
  refine .peek fun k hk => ?_
  split
  · exact .bind (.skip hk rfl) fun _ _ => (names_guarded h).lower
  · exact .of_pure _

theorem paramList_guarded : Guarded z n fresh true ts (paramList rec) (paramList rec') := by
  unfold paramList
  refine .bind (.expect _) fun _ _ => .behind (h .params _) fun fs _ => ?_
  exact .bind (.expect _) fun _ _ => .of_pure _

theorem signature_guarded : Guarded z n fresh true ts (signature rec) (signature rec') := by
  unfold signature
  refine .bind (paramList_guarded h) fun ps _ => .peek fun k hk => ?_
  split
  · exact .bind (paramList_guarded h) fun rs _ => .of_pure _
  · split
    · exact .bind (h .type _) fun t _ => .of_pure _
    · exact .of_pure _

theorem structType_guarded : Guarded z n fresh true ts (structType rec) (structType rec') := by
  unfold structType
  refine .bind (.expectKeyword _) fun _ _ => .bind (.expect _) fun _ _ => ?_
  exact .behind (h .fields _) fun fs _ => .bind (.expect _) fun _ _ => .of_pure _

theorem interfaceType_guarded :
    Guarded z n fresh true ts (interfaceType rec) (interfaceType rec') := by
  unfold interfaceType
  refine .bind (.expectKeyword _) fun _ _ => .bind (.expect _) fun _ _ => ?_
  exact .behind (h .interfaceItems _) fun is _ => .bind (.expect _) fun _ _ => .of_pure _

theorem types_guarded : Guarded z n false true ts (types rec) (types rec') := by
  unfold types
  exact .bind (h .type _) fun t _ => .behind (h .typesTail _) fun us _ => .of_pure _

theorem typesTail_guarded : Guarded z n fresh false ts (typesTail rec) (typesTail rec') := by
  unfold typesTail
  refine .atSymbol (fun hk => ?_) (.of_pure _)
  exact .bind (.skip hk rfl) fun _ _ => (types_guarded h).lower

theorem typeArgsTail_guarded :
    Guarded z n fresh false ts (typeArgsTail rec) (typeArgsTail rec') := by
  unfold typeArgsTail
  refine .atSymbol (fun hk => .bind (.skip hk rfl) fun _ _ => ?_) (.of_pure _)
  refine .atSymbol (fun _ => .of_pure _) ?_
  exact .bind (h .type _) fun t _ => .behind (h .typeArgsTail _) fun us _ => .of_pure _

theorem typeArguments_guarded (base : Expr) :
    Guarded z n fresh false ts (typeArguments rec base) (typeArguments rec' base) := by
  unfold typeArguments
  refine .peekSecond (fun second _ => .atSymbol (fun hk => ?_) (.of_pure _)) fun hts second => ?_
  · split
    · refine .bind (.skip hk rfl) fun _ _ => .bind (types_guarded h) fun us _ => ?_
      exact .bind (.expect _) fun _ _ => .of_pure _
    · exact .of_pure _
  · subst hts
    exact .atSymbol (fun hk => by cases hk) (.of_pure _)

theorem namedTail_guarded (m : String) :
    Guarded z n fresh false ts (namedTail rec m) (namedTail rec' m) := by
  rw [namedTail_eq, namedTail_eq]
  refine .atSymbol (fun hk => ?_) (typeArguments_guarded h _)
  exact .bind (.skip hk rfl) fun _ _ => .bind .expectName fun f _ => typeArguments_guarded h _

theorem arrayTail_guarded : Guarded z n false true ts (arrayTail rec) (arrayTail rec') := by
  unfold arrayTail
  refine .peek fun k hk => ?_
  extract_lets elem elem'
  have helem : ∀ len zs, Guarded z n false true zs (elem len) (elem' len) := fun len zs =>
    .bind (.expect _) fun _ _ => .bind (h .type _) fun t _ => .of_pure _
  split
  · exact helem _ _
  · exact .bind (.skip hk rfl) fun _ _ => (helem _ _).lower
  · exact .bind (.nested (h (.binary 1) _)) fun m _ => (helem _ _).lower

theorem type_guarded : Guarded z n fresh true ts (type rec) (type rec') := by
  unfold type
  refine .peek fun k hk => ?_
  split
  · exact .bind (.skip hk rfl) fun _ _ => namedTail_guarded h _
  · exact .bind (.skip hk rfl) fun _ _ => (arrayTail_guarded h).lower
  · exact structType_guarded h
  · exact interfaceType_guarded h
  · exact .bind (.skip hk rfl) fun _ _ => .bind (h .type _) fun t _ => .of_pure _
  · exact .bind (.skip hk rfl) fun _ _ => .bind (signature_guarded h) fun s _ => .of_pure _
  · refine .bind (.skip hk rfl) fun _ _ => .bind (.expect _) fun _ _ => ?_
    refine .bind (h .type _) fun k _ => .bind (.expect _) fun _ _ => ?_
    exact .bind (h .type _) fun v _ => .of_pure _
  · have helem : ∀ dir zs, Guarded z n false false zs
        (rec .type >>= fun t => pure (Expr.chanType dir t))
        (rec' .type >>= fun t => pure (Expr.chanType dir t)) :=
      fun dir zs => .bind (h .type _) fun t _ => .of_pure _
    refine .bind (.skip hk rfl) fun _ _ => .atSymbol (fun ha => ?_) (helem _ _)
    exact .bind (.skip ha rfl) fun _ _ => helem _ _
  · refine .bind (.skip hk rfl) fun _ _ => .bind (.expectKeyword _) fun _ _ => ?_
    exact .bind (h .type _) fun t _ => .of_pure _
  · refine .bind (.skip hk rfl) fun _ _ => .bind (h .type _) fun t _ => ?_
    exact .bind (.expect _) fun _ _ => .of_pure _
  · exact .unexpected _

theorem params_guarded : Guarded z n fresh false ts (params rec) (params rec') := by
  unfold params
  refine .atListEnd (.of_pure _) fun hne => .peek fun k _ => ?_
  extract_lets named typed typed'
  have htyped : ∀ fresh ns zs, Guarded z n fresh false zs (typed ns) (typed' ns) := by
    intro fresh ns zs
    refine .atSymbol (fun hk => .bind (.skip hk rfl) fun _ _ => ?_) ?_
    · exact .bind (type_guarded h) fun t _ => .moreBehindComma (h .params) _ _
    · exact .bind (type_guarded h) fun t _ => .moreBehindComma (h .params) _ _
  refine .peekSecond (fun second _ => ?_) fun hts => absurd (hts ▸ rfl) hne
  split
  · exact .bind .expectName fun m _ => htyped _ _ _
  · exact htyped _ _ _

theorem unionTerm_guarded : Guarded z n fresh true ts (unionTerm rec) (unionTerm rec') := by
  unfold unionTerm
  refine .atSymbol (fun hk => ?_) (type_guarded h)
  exact .bind (.skip hk rfl) fun _ _ => .bind (type_guarded h) fun t _ => .of_pure _

theorem unionTail_guarded : Guarded z n fresh false ts (unionTail rec) (unionTail rec') := by
  unfold unionTail
  refine .atSymbol (fun hk => .bind (.skip hk rfl) fun _ _ => ?_) (.of_pure _)
  exact .bind (unionTerm_guarded h) fun t _ => .behind (h .unionTail _) fun us _ => .of_pure _

theorem interfaceItem_guarded :
    Guarded z n fresh true ts (interfaceItem rec) (interfaceItem rec') := by
  unfold interfaceItem
  have hunion : ∀ zs, Guarded z n fresh true zs
      (unionTerm rec >>= fun t => rec .unionTail >>= fun us => pure (.union (t :: us)))
      (unionTerm rec' >>= fun t => rec' .unionTail >>= fun us =>
        pure (InterfaceItem.union (t :: us))) := fun zs =>
    .bind (unionTerm_guarded h) fun t _ => .behind (h .unionTail _) fun us _ => .of_pure _
  refine .peekSecond (fun second _ => .peek fun k hk => ?_) fun hts second => .peek fun k hk => ?_
  · split
    · exact .bind (.skip hk rfl) fun _ _ => .bind (signature_guarded h) fun s _ => .of_pure _
    · exact hunion _
  · subst hts
    cases hk
    exact hunion _

theorem interfaceItems_guarded :
    Guarded z n fresh false ts (interfaceItems rec) (interfaceItems rec') := by
  unfold interfaceItems
  refine .atListEnd (.of_pure _) fun _ => .bind (interfaceItem_guarded h) fun i _ => ?_
  exact .behind .statementEnd fun _ _ => .behind (h .interfaceItems _) fun is _ => .of_pure _

theorem field_guarded : Guarded z n fresh true ts (field rec) (field rec') := by
  unfold field
  refine .peek fun k hk => ?_
  extract_lets typed named typed' named'
  have htyped : ∀ fresh ns zs, Guarded z n fresh true zs (typed ns) (typed' ns) :=
    fun fresh ns zs => by
      refine .bind (type_guarded h) fun t _ => .peek fun k hk => ?_
      split
      · exact .bind (.skip hk rfl) fun _ _ => .of_pure _
      · exact .of_pure _
  have hnamed : ∀ embedded, Guarded z n fresh true ts (named embedded) (named' embedded) :=
    fun embedded => by
      simp only [named, named']
      split
      · exact htyped _ _ _
      · exact .bind (names_guarded h) fun ns _ => (htyped _ _ _).lower
  split
  · exact hnamed true
  · refine .peekSecond (fun second _ => hnamed _) fun hts => ?_
    rw [hts] at hk
    cases hk
  · exact .unexpected_bind _ _ _

theorem fields_guarded : Guarded z n fresh false ts (fields rec) (fields rec') := by
  unfold fields
  refine .atListEnd (.of_pure _) fun _ => .bind (field_guarded h) fun f _ => ?_
  exact .behind .statementEnd fun _ _ => .behind (h .fields _) fun fs _ => .of_pure _

end Types

end GoRepl.Syntax
