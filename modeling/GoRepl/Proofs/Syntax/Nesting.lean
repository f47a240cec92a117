import GoRepl.Proofs.Syntax.BeforeBlock
import GoRepl.Proofs.Token.Nesting

/-! # Readers that take nested brackets

A reader that opens a bracket closes it before it ends, and one that stands before a bracket that
it has not opened leaves that alone.  So the tokens that a phrase takes are nested.

* `Takes`: the tokens that a reader takes close some brackets, and are nested apart from that.
* `Takes.bind` and the lemmas behind it: one for each way to compose readers.
* `Phrases.Nest`: all readers of phrases take nested tokens.
* `type_takes` and the lemmas around it: the grammar of types.
-/

namespace GoRepl.Syntax

open Read Grammar

/-- Whatever `p` takes from `ts` closes the open brackets `bs` and is nested apart from that. -/
def Takes {α : Type} (bs : List Bracket) (ts : List Token) (p : Read α) : Prop :=
  ∀ l a s, p ⟨ts, l⟩ = .ok (a, s) →
    ∃ taken, ts = taken ++ s.tokens ∧ Closes bs (taken.map (·.kind))

namespace Takes

variable {α β : Type} {bs : List Bracket} {ts : List Token} {b : Bracket} {sym : Symbol} {k : Kind}

theorem of_pure (a : α) : Takes [] ts (pure a) := by
  intro l a' s h
  cases h
  exact ⟨[], rfl, .nil⟩

theorem fail (f : SyntaxFault) : Takes bs ts (Read.fail f : Read α) := by
  intro l a s h
  cases h

theorem unexpected (w : Wanted) : Takes bs ts (Read.unexpected w : Read α) := fail _

theorem fail_bind (f : SyntaxFault) (k : α → Read β) : Takes bs ts (Read.fail f >>= k) := by
  intro l a s h
  cases h

theorem unexpected_bind (w : Wanted) (k : α → Read β) : Takes bs ts (Read.unexpected w >>= k) :=
  fail_bind _ k

/-- Behind a reader that takes nested tokens. -/
theorem bind {p : Read α} {f : α → Read β} (hp : Takes [] ts p) (hf : ∀ a zs, Takes bs zs (f a)) :
    Takes bs ts (p >>= f) := by
  intro l b s h
  obtain ⟨a, s', hpa, hfb⟩ := bind_eq_ok.mp h
  obtain ⟨taken, rfl, hn⟩ := hp l a s' hpa
  obtain ⟨taken', hs, hc⟩ := hf a s'.tokens s'.level b s hfb
  refine ⟨taken ++ taken', by rw [hs, List.append_assoc], ?_⟩
  rw [List.map_append]
  exact .append hn hc

/-! ## Looking at tokens -/

theorem peek {f : Kind → Read α} (h : ∀ k, headKind ts = k → Takes bs ts (f k)) :
    Takes bs ts (peek >>= f) := h _ rfl

theorem peekSecond {f : Kind → Read α} (h : ∀ k, headKind ts.tail = k → Takes bs ts (f k)) :
    Takes bs ts (peekSecond >>= f) := h _ rfl

theorem level {f : Int → Read α} (h : ∀ l, Takes bs ts (f l)) : Takes bs ts (level >>= f) :=
  fun l => h l l

theorem atSymbol {f : Bool → Read α} (htrue : headKind ts = .symbol sym → Takes bs ts (f true))
    (hfalse : Takes bs ts (f false)) : Takes bs ts (atSymbol sym >>= f) := by
  intro l a s h
  rw [atSymbol_bind] at h
  cases hb : headKind ts == .symbol sym with
  | true => exact htrue (eq_of_beq hb) l a s (hb ▸ h)
  | false => exact hfalse l a s (hb ▸ h)

theorem atSemicolon {f : Bool → Read α}
    (htrue : (headKind ts).isSemicolon = true → Takes bs ts (f true))
    (hfalse : Takes bs ts (f false)) : Takes bs ts (atSemicolon >>= f) := by
  intro l a s h
  rw [atSemicolon_bind] at h
  cases hb : (headKind ts).isSemicolon with
  | true => exact htrue hb l a s (hb ▸ h)
  | false => exact hfalse l a s (hb ▸ h)

theorem atListEnd {f : Bool → Read α} (h : ∀ b, Takes bs ts (f b)) :
    Takes bs ts (atListEnd sym >>= f) := fun l a s hs => h _ l a s hs

/-! ## Taking tokens -/

/-- A token is taken in front of others. -/
theorem skip_of {bs' : List Bracket} {f : Unit → Read α}
    (hk : ∀ ks, Closes bs' ks → Closes bs (headKind ts :: ks))
    (hnil : headKind ts = .eof → bs' = bs) (h : Takes bs' ts.tail (f ())) :
    Takes bs ts (skip >>= f) := by
  cases ts with
  | nil => exact hnil rfl ▸ h
  | cons t ts =>
    intro l a s hs
    obtain ⟨taken, htail, hc⟩ := h l a s hs
    refine ⟨t :: taken, ?_, hk _ hc⟩
    rw [List.cons_append, ← htail]
    rfl

/-- Any token but a bracket. -/
theorem skip_tail {f : Unit → Read α} (hd : (headKind ts).depth = 0)
    (h : Takes bs ts.tail (f ())) : Takes bs ts (skip >>= f) :=
  skip_of (fun _ hc => .other hd hc) (fun _ => rfl) h

theorem skip {f : Unit → Read α} (hk : headKind ts = k) (hd : k.depth = 0)
    (h : ∀ zs, Takes bs zs (f ())) : Takes bs ts (skip >>= f) :=
  skip_tail (hk ▸ hd) (h _)

theorem skip_opening (b : Bracket) {f : Unit → Read α} (hk : headKind ts = .symbol b.opening)
    (h : ∀ zs, Takes (b :: bs) zs (f ())) : Takes bs ts (Read.skip >>= f) := by
  refine skip_of (fun ks hc => ?_) (fun he => ?_) (h _)
  · rw [hk]
    exact hc.opening
  · rw [hk] at he
    cases he

theorem skip_closing (b : Bracket) {f : Unit → Read α} (hk : headKind ts = .symbol b.closing)
    (h : ∀ zs, Takes bs zs (f ())) : Takes (b :: bs) ts (Read.skip >>= f) := by
  refine skip_of (fun ks hc => ?_) (fun he => ?_) (h _)
  · rw [hk]
    exact hc.closing
  · rw [hk] at he
    cases he

theorem expect_of {f : Unit → Read α}
    (h : headKind ts = .symbol sym → Takes bs ts (Read.skip >>= f)) :
    Takes bs ts (expect sym >>= f) := by
  unfold Read.expect
  rw [bind_assoc]
  exact atSymbol h (.fail _)

theorem expect {f : Unit → Read α} (hd : (Kind.symbol sym).depth = 0)
    (h : ∀ zs, Takes bs zs (f ())) : Takes bs ts (expect sym >>= f) :=
  expect_of fun hk => skip hk hd h

theorem expect_opening (b : Bracket) {f : Unit → Read α} (h : ∀ zs, Takes (b :: bs) zs (f ())) :
    Takes bs ts (Read.expect b.opening >>= f) :=
  expect_of fun hk => skip_opening b hk h

theorem expect_closing (b : Bracket) {f : Unit → Read α} (h : ∀ zs, Takes bs zs (f ())) :
    Takes (b :: bs) ts (Read.expect b.closing >>= f) :=
  expect_of fun hk => skip_closing b hk h

theorem expectKeyword {w : Keyword} {f : Unit → Read α} (h : ∀ zs, Takes bs zs (f ())) :
    Takes bs ts (expectKeyword w >>= f) := by
  unfold Read.expectKeyword
  rw [bind_assoc]
  refine peek fun k hk => ?_
  split
  · rename_i hw
    exact skip hk (eq_of_beq hw ▸ rfl) h
  · exact .fail _

theorem expectName {f : String → Read α} (h : ∀ n zs, Takes bs zs (f n)) :
    Takes bs ts (expectName >>= f) := by
  unfold Read.expectName
  rw [bind_assoc]
  refine peek fun k hk => ?_
  split
  · rw [bind_assoc]
    exact skip hk rfl fun zs => h _ zs
  · exact .fail _

theorem statementEnd : Takes [] ts statementEnd := by
  unfold Read.statementEnd
  refine peek fun k hk => ?_
  split
  · exact skip hk rfl fun _ => .of_pure ()
  · exact skip hk rfl fun _ => .of_pure ()
  · exact .of_pure ()
  · exact .of_pure ()
  · exact .of_pure ()
  · exact .unexpected _

/-! ## Nesting levels -/

theorem nested {p : Read α} (h : Takes [] ts p) : Takes [] ts (nested p) := by
  intro l a s hnested
  obtain ⟨s₁, hp, rfl⟩ := nested_eq_ok.mp hnested
  exact h _ a s₁ hp

theorem header {p : Read α} (h : Takes [] ts p) : Takes [] ts (header p) := by
  intro l a s hheader
  obtain ⟨s₁, hp, rfl⟩ := header_eq_ok.mp hheader
  exact h _ a s₁ hp

end Takes

/-- The readers of all phrases take nested tokens. -/
def Phrases.Nest (rec : Phrases) : Prop := ∀ {α : Type} (ph : Phrase α) (ts : List Token),
  Takes [] ts (rec ph)

/-! ## Types -/

section Types

variable {rec : Phrases} {ts : List Token} (h : Phrases.Nest rec)

include h

theorem names_takes : Takes [] ts (names rec) := by
  unfold names
  refine .expectName fun n _ => ?_
  exact .bind (h _ _) fun ns _ => .of_pure _

theorem namesTail_takes : Takes [] ts (namesTail rec) := by
  unfold namesTail
  refine .peek fun k hk => ?_
  split
  · exact .skip hk rfl fun _ => names_takes h
  · exact .of_pure _

theorem paramList_takes : Takes [] ts (paramList rec) := by
  unfold paramList
  refine .expect_opening .paren fun _ => .bind (h _ _) fun fs _ => ?_
  exact .expect_closing .paren fun _ => .of_pure fs

theorem signature_takes : Takes [] ts (signature rec) := by
  unfold signature
  refine .bind (paramList_takes h) fun ps zs => .peek fun k _ => ?_
  split
  · exact .bind (paramList_takes h) fun rs _ => .of_pure _
  · split
    · exact .bind (h _ _) fun t _ => .of_pure _
    · exact .of_pure _

theorem structType_takes : Takes [] ts (structType rec) := by
  unfold structType
  refine .expectKeyword fun _ => .expect_opening .brace fun _ => .bind (h _ _) fun fs _ => ?_
  exact .expect_closing .brace fun _ => .of_pure _

theorem interfaceType_takes : Takes [] ts (interfaceType rec) := by
  unfold interfaceType
  refine .expectKeyword fun _ => .expect_opening .brace fun _ => .bind (h _ _) fun is _ => ?_
  exact .expect_closing .brace fun _ => .of_pure _

theorem types_takes : Takes [] ts (types rec) := by
  unfold types
  exact .bind (h _ _) fun t _ => .bind (h _ _) fun us _ => .of_pure _

theorem typesTail_takes : Takes [] ts (typesTail rec) := by
  unfold typesTail
  refine .atSymbol (fun hk => ?_) (.of_pure _)
  exact .skip hk rfl fun _ => types_takes h

theorem typeArgsTail_takes : Takes [] ts (typeArgsTail rec) := by
  unfold typeArgsTail
  refine .atSymbol (fun hk => .skip hk rfl fun _ => ?_) (.of_pure _)
  refine .atSymbol (fun _ => .of_pure _) ?_
  exact .bind (h _ _) fun t _ => .bind (h _ _) fun us _ => .of_pure _


theorem typeArguments_takes (base : Expr) : Takes [] ts (typeArguments rec base) := by
  unfold typeArguments
  refine .peekSecond fun second _ => .atSymbol (fun hk => ?_) (.of_pure _)
  split
  · refine .skip_opening .square hk fun _ => .bind (types_takes h) fun us _ => ?_
    exact .expect_closing .square fun _ => .of_pure _
  · exact .of_pure _

theorem namedTail_takes (n : String) : Takes [] ts (namedTail rec n) := by
  rw [namedTail_eq]
  refine .atSymbol (fun hk => ?_) (typeArguments_takes h _)
  exact .skip hk rfl fun _ => .expectName fun f _ => typeArguments_takes h _

theorem arrayTail_takes : Takes [.square] ts (arrayTail rec) := by
  unfold arrayTail
  refine .peek fun k hk => ?_
  extract_lets elem
  have helem : ∀ len zs, Takes [.square] zs (elem len) := fun len zs => by
    refine .expect_closing .square fun _ => .bind (h _ _) fun t _ => .of_pure _
  split
  · exact helem _ _
  · exact .skip hk rfl fun _ => helem _ _
  · exact .bind (.nested (h _ _)) fun n _ => helem _ _

theorem type_takes : Takes [] ts (type rec) := by
  unfold type
  refine .peek fun k hk => ?_
  split
  · exact .skip hk rfl fun _ => namedTail_takes h _
  · exact .skip_opening .square hk fun _ => arrayTail_takes h
  · exact structType_takes h
  · exact interfaceType_takes h
  · exact .skip hk rfl fun _ => .bind (h _ _) fun t _ => .of_pure _
  · exact .skip hk rfl fun _ => .bind (signature_takes h) fun s _ => .of_pure _
  · refine .skip hk rfl fun _ => .expect_opening .square fun _ => .bind (h _ _) fun k _ => ?_
    exact .expect_closing .square fun _ => .bind (h _ _) fun v _ => .of_pure _
  · refine .skip hk rfl fun _ => .atSymbol (fun ha => .skip ha rfl fun _ => ?_) ?_
    · exact .bind (.of_pure _) fun dir _ => .bind (h _ _) fun t _ => .of_pure _
    · exact .bind (.of_pure _) fun dir _ => .bind (h _ _) fun t _ => .of_pure _
  · exact .skip hk rfl fun _ => .expectKeyword fun _ => .bind (h _ _) fun t _ => .of_pure _
  · refine .skip_opening .paren hk fun _ => .bind (h _ _) fun t _ => ?_
    exact .expect_closing .paren fun _ => .of_pure _
  · exact .unexpected _

theorem params_takes : Takes [] ts (params rec) := by
  unfold params
  refine .atListEnd fun b => ?_
  split
  · exact .of_pure _
  refine .peek fun k _ => ?_
  extract_lets named typed
  have htyped : ∀ ns zs, Takes [] zs (typed ns) := fun ns zs => by
    refine .atSymbol (fun he => .skip he rfl fun _ => ?_) ?_
    · refine .bind (type_takes h) fun t _ => .bind (.of_pure _) fun t _ => ?_
      refine .atSymbol (fun hc => ?_) (.of_pure _)
      exact .skip hc rfl fun _ => .bind (h _ _) fun fs _ => .of_pure _
    · refine .bind (type_takes h) fun t _ => .atSymbol (fun hc => ?_) (.of_pure _)
      exact .skip hc rfl fun _ => .bind (h _ _) fun fs _ => .of_pure _
  refine .peekSecond fun second _ => ?_
  split
  · exact .expectName fun n _ => htyped _ _
  · exact htyped _ _

theorem field_takes : Takes [] ts (field rec) := by
  unfold field
  refine .peek fun k _ => ?_
  extract_lets typed named
  have htyped : ∀ ns zs, Takes [] zs (typed ns) := fun ns zs => by
    refine .bind (type_takes h) fun t _ => .peek fun k hk => ?_
    split
    · exact .skip hk rfl fun _ => .of_pure _
    · exact .of_pure _
  have hnamed : ∀ embedded zs, Takes [] zs (named embedded) := fun embedded zs => by
    simp only [named]
    split
    · exact htyped _ _
    · exact .bind (names_takes h) fun ns _ => htyped _ _
  split
  · exact hnamed true _
  · exact .peekSecond fun second _ => hnamed _ _
  · exact .unexpected_bind _ _

theorem fields_takes : Takes [] ts (fields rec) := by
  unfold fields
  refine .atListEnd fun b => ?_
  split
  · exact .of_pure _
  · refine .bind (field_takes h) fun f _ => .bind .statementEnd fun _ _ => ?_
    exact .bind (h _ _) fun fs _ => .of_pure _

theorem unionTerm_takes : Takes [] ts (unionTerm rec) := by
  unfold unionTerm
  refine .atSymbol (fun hk => ?_) (type_takes h)
  exact .skip hk rfl fun _ => .bind (type_takes h) fun t _ => .of_pure _

theorem unionTail_takes : Takes [] ts (unionTail rec) := by
  unfold unionTail
  refine .atSymbol (fun hk => .skip hk rfl fun _ => ?_) (.of_pure _)
  exact .bind (unionTerm_takes h) fun t _ => .bind (h _ _) fun us _ => .of_pure _

theorem interfaceItem_takes : Takes [] ts (interfaceItem rec) := by
  unfold interfaceItem
  refine .peekSecond fun second _ => .peek fun k hk => ?_
  split
  · exact .skip hk rfl fun _ => .bind (signature_takes h) fun s _ => .of_pure _
  · exact .bind (unionTerm_takes h) fun t _ => .bind (h _ _) fun us _ => .of_pure _

theorem interfaceItems_takes : Takes [] ts (interfaceItems rec) := by
  unfold interfaceItems
  refine .atListEnd fun b => ?_
  split
  · exact .of_pure _
  · refine .bind (interfaceItem_takes h) fun i _ => .bind .statementEnd fun _ _ => ?_
    exact .bind (h _ _) fun is _ => .of_pure _

end Types

end GoRepl.Syntax
