import GoRepl.Proofs.Syntax.LastToken

/-! # Reading with other tokens behind

An expression ends in front of a semicolon, and it ends at the same place if a closing parenthesis
stands there instead.  What is read inside of brackets does not depend on the tokens behind at all.

* `Exchange`: the tokens behind a phrase, and those that stand there instead.
* `Exchanges`: a reader that reads the same in front of either; an inner one stops before.
* `Exchanges.bind` and the lemmas behind it: one for each way to compose readers.
* `Phrases.Exchange`: the readers of all phrases do so.
* `type_exchanges` and the lemmas around it: the grammar of types.
-/

namespace GoRepl

/-- A semicolon or a closing parenthesis. -/
def Kind.isStop : Kind → Bool
  | .newline | .symbol .semicolon | .symbol .rparen => true
  | _ => false

namespace Syntax

open Read Grammar

theorem isStop_of_isSemicolon {k : Kind} (h : k.isSemicolon = true) : k.isStop = true := by
  rcases isSemicolon_iff.mp h with rfl | rfl <;> rfl

/-- Tokens behind a phrase, which start with a semicolon, and others that may stand there. -/
structure Exchange where
  old : List Token
  new : List Token
  semicolon : (headKind old).isSemicolon = true
  stop : (headKind new).isStop = true

instance : Inhabited Exchange :=
  ⟨[⟨.newline, default⟩], [⟨.newline, default⟩], rfl, rfl⟩

/-- The tokens are of the same kinds. -/
def Agree (c c' : List Token) : Prop := c.map (·.kind) = c'.map (·.kind)

/-- The same level, or two levels at which literals open. -/
def SameLevel (l l' : Int) : Prop := l = l' ∨ 0 ≤ l ∧ 0 ≤ l'

namespace Exchange

variable (x : Exchange)

theorem old_ne_nil : x.old ≠ [] := by
  intro h
  have hs := x.semicolon
  rw [h] at hs
  cases hs

theorem headKind_old_ne {k : Kind} (hk : k.isSemicolon = false) : headKind x.old ≠ k := by
  rintro rfl
  rw [x.semicolon] at hk
  cases hk

theorem stop_old : (headKind x.old).isStop = true := isStop_of_isSemicolon x.semicolon

end Exchange

theorem Agree.cons_inv {t : Token} {c c' : List Token} (h : Agree (t :: c) c') :
    ∃ t' c₁, c' = t' :: c₁ ∧ t.kind = t'.kind ∧ Agree c c₁ := by
  obtain ⟨t', c₁, rfl, ht, hc⟩ := List.map_eq_cons_iff.mp (Eq.symm h)
  exact ⟨t', c₁, rfl, ht.symm, hc.symm⟩

theorem Agree.nil_inv {c' : List Token} (h : Agree [] c') : c' = [] :=
  List.map_eq_nil_iff.mp (Eq.symm h)

theorem SameLevel.succ {l l' : Int} (h : SameLevel l l') : SameLevel (l + 1) (l' + 1) := by
  rcases h with rfl | ⟨hl, hl'⟩
  · exact .inl rfl
  · exact .inr ⟨by omega, by omega⟩

/-- A function of the next token that does not tell stops from each other. -/
def StopsAlike {β : Type} (f : Kind → β) : Prop := ∀ k, k.isStop = true → f k = f .newline

theorem StopsAlike.intro {β : Type} {f : Kind → β} (hs : f (.symbol .semicolon) = f .newline)
    (hp : f (.symbol .rparen) = f .newline) : StopsAlike f := by
  intro k hk
  unfold Kind.isStop at hk
  split at hk
  · rfl
  · exact hs
  · exact hp
  · cases hk

theorem StopsAlike.bind {α β : Type} {p : Read α} {f : α → Kind → Read β}
    (h : ∀ a, StopsAlike (f a)) : StopsAlike fun k => p >>= fun a => f a k :=
  fun k hk => congrArg (p >>= ·) (funext fun a => h a k hk)

/-- A reader goes forward and keeps the level; and if `p` stops in front of the old tokens, or with
`inner` before that, then `q` reads the same from tokens of the same kinds in front of the new. -/
structure Exchanges {α : Type} (x : Exchange) (inner : Bool) (p q : Read α) : Prop where
  forward : ∀ {s a s'}, p s = .ok (a, s') → s'.tokens <:+ s.tokens ∧ s'.level = s.level
  same : ∀ {c c' l l' a z}, Agree c c' → SameLevel l l' → (inner = true → z ≠ []) →
    p ⟨c ++ x.old, l⟩ = .ok (a, ⟨z ++ x.old, l⟩) →
    ∃ z', Agree z z' ∧ q ⟨c' ++ x.new, l'⟩ = .ok (a, ⟨z' ++ x.new, l'⟩)

namespace Exchanges

variable {α β : Type} {x : Exchange} {inner : Bool} {p q : Read α}

theorem weaken (h : Exchanges x false p q) : Exchanges x inner p q where
  forward := h.forward
  same hc hl _ := h.same hc hl nofun

theorem of_pure (a : α) : Exchanges x inner (pure a) (pure a) where
  forward h := by
    cases h
    exact ⟨List.suffix_rfl, rfl⟩
  same {c c' l l' b z} hc hl _ h := by
    obtain ⟨rfl, hs⟩ := Prod.mk.inj (Except.ok.inj h)
    obtain rfl := List.append_cancel_right (congrArg ReadState.tokens hs)
    exact ⟨c', hc, rfl⟩

theorem of_error (hp : ∀ s y, p s ≠ .ok y) : Exchanges x inner p q where
  forward h := absurd h (hp _ _)
  same _ _ _ h := absurd h (hp _ _)

theorem fail (f : SyntaxFault) : Exchanges x inner (Read.fail f : Read α) q :=
  of_error fun _ _ => nofun

theorem unexpected (w : Wanted) : Exchanges x inner (Read.unexpected w : Read α) q := fail _

theorem fail_bind (f : SyntaxFault) (k : β → Read α) :
    Exchanges x inner (Read.fail f >>= k) q := of_error fun _ _ => nofun

/-- Where the second reader cannot start in front of the old tokens, the first one has stopped
before. -/
theorem bind_of {f g : α → Read β} {outer : Bool} (hp : Exchanges x inner p q)
    (hstart : inner = true → outer = true ∨ ∀ a l y, f a ⟨x.old, l⟩ ≠ .ok y)
    (hf : ∀ a, Exchanges x outer (f a) (g a)) : Exchanges x outer (p >>= f) (q >>= g) where
  forward h := by
    obtain ⟨a, s₁, ha, hb⟩ := bind_eq_ok.mp h
    obtain ⟨hp₁, hl₁⟩ := hp.forward ha
    obtain ⟨hp₂, hl₂⟩ := (hf a).forward hb
    exact ⟨hp₂.trans hp₁, hl₂.trans hl₁⟩
  same {c c' l l' b z} hc hl hz h := by
    obtain ⟨a, ⟨ts, l₁⟩, ha, hb⟩ := bind_eq_ok.mp h
    obtain ⟨⟨u, hu⟩, hlevel⟩ := (hf a).forward hb
    obtain rfl : u ++ (z ++ x.old) = ts := hu
    obtain rfl : l = l₁ := hlevel
    have hbefore : inner = true → u ++ z ≠ [] := by
      intro hi hnil
      obtain ⟨rfl, rfl⟩ := List.append_eq_nil_iff.mp hnil
      rcases hstart hi with ho | hs
      · exact hz ho rfl
      · exact hs a _ _ hb
    rw [← List.append_assoc] at ha hb
    obtain ⟨z₁, hz₁, hq⟩ := hp.same hc hl hbefore ha
    obtain ⟨z', hz', hg⟩ := (hf a).same hz₁ hl hz hb
    exact ⟨z', hz', (bind_of_ok hq g).trans hg⟩

theorem bind {f g : α → Read β} (hp : Exchanges x inner p q)
    (hf : ∀ a, Exchanges x inner (f a) (g a)) : Exchanges x inner (p >>= f) (q >>= g) :=
  bind_of hp .inl hf

/-! ## Looking at tokens -/

/-- A reader that stops before the old tokens has not started in front of them. -/
theorem exists_cons {c z : List Token} {l : Int} {a : α} (h : Exchanges x inner p q)
    (hz : z ≠ []) (hp : p ⟨c ++ x.old, l⟩ = .ok (a, ⟨z ++ x.old, l⟩)) : ∃ t c₁, c = t :: c₁ := by
  have hlen := (h.forward hp).1.length_le
  have hpos := List.length_pos_iff.mpr hz
  cases c with
  | nil =>
    simp only [List.nil_append, List.length_append] at hlen
    omega
  | cons t c₁ => exact ⟨t, c₁, rfl⟩

theorem peek {f g : Kind → Read α} (hf : StopsAlike f) (hg : StopsAlike g)
    (h : ∀ k, Exchanges x inner (f k) (g k)) :
    Exchanges x inner (peek >>= f) (peek >>= g) where
  forward {s a s'} hs := (h (headKind s.tokens)).forward hs
  same {c c' l l' a z} hc hl hz hp := by
    cases c with
    | nil =>
      obtain rfl := hc.nil_inv
      have hold : f (headKind x.old) ⟨[] ++ x.old, l⟩ = .ok (a, ⟨z ++ x.old, l⟩) := hp
      rw [hf _ x.stop_old] at hold
      change ∃ z', _ ∧ g (headKind x.new) ⟨[] ++ x.new, l'⟩ = _
      rw [hg _ x.stop]
      exact (h _).same hc hl hz hold
    | cons t c =>
      obtain ⟨t', c₁, rfl, ht, -⟩ := hc.cons_inv
      have hsame := (h t.kind).same hc hl hz hp
      rw [ht] at hsame
      exact hsame

theorem peek_inner {f g : Kind → Read α} (h : ∀ k, Exchanges x true (f k) (g k)) :
    Exchanges x true (Read.peek >>= f) (Read.peek >>= g) where
  forward {s a s'} hs := (h (headKind s.tokens)).forward hs
  same {c c' l l' a z} hc hl hz hp := by
    obtain ⟨t, c₁, rfl⟩ := (h _).exists_cons (hz rfl) hp
    obtain ⟨t', c₁', rfl, ht, -⟩ := hc.cons_inv
    have hsame := (h t.kind).same hc hl hz hp
    rw [ht] at hsame
    exact hsame

/-- Behind the last token before the old ones stands a stop. -/
theorem peekSecond {f g : Kind → Read α} (hf : StopsAlike f) (hg : StopsAlike g)
    (h : ∀ k, Exchanges x true (f k) (g k)) :
    Exchanges x true (peekSecond >>= f) (peekSecond >>= g) where
  forward {s a s'} hs := (h (headKind s.tokens.tail)).forward hs
  same {c c' l l' a z} hc hl hz hp := by
    obtain ⟨t, c₁, rfl⟩ := (h _).exists_cons (hz rfl) hp
    obtain ⟨t', c₁', rfl, -, hc₁⟩ := hc.cons_inv
    cases c₁ with
    | nil =>
      obtain rfl := hc₁.nil_inv
      have hold : f (headKind x.old) ⟨[t] ++ x.old, l⟩ = .ok (a, ⟨z ++ x.old, l⟩) := hp
      rw [hf _ x.stop_old] at hold
      change ∃ z', _ ∧ g (headKind x.new) ⟨[t'] ++ x.new, l'⟩ = _
      rw [hg _ x.stop]
      exact (h _).same hc hl hz hold
    | cons u c₁ =>
      obtain ⟨u', c₂, rfl, hu, -⟩ := hc₁.cons_inv
      have hsame := (h u.kind).same hc hl hz hp
      rw [hu] at hsame
      exact hsame

/-- A reader that takes something and stops before the old tokens starts before the last token in
front of them. -/
theorem peekSecond_taking {f g : Kind → Read α} (hf : ∀ k ts, Ends true ts (f k))
    (h : ∀ k, Exchanges x true (f k) (g k)) :
    Exchanges x true (Read.peekSecond >>= f) (Read.peekSecond >>= g) where
  forward {s a s'} hs := (h (headKind s.tokens.tail)).forward hs
  same {c c' l l' a z} hc hl hz hp := by
    obtain ⟨taken, htaken, hends⟩ := hf _ _ _ _ _ hp
    have htook : taken ≠ [] := by
      rintro rfl
      cases hends
    have hlen := congrArg List.length htaken
    have hz' := List.length_pos_iff.mpr (hz rfl)
    have htook' := List.length_pos_iff.mpr htook
    simp only [List.length_append] at hlen
    rcases c with _ | ⟨t, _ | ⟨u, c₁⟩⟩
    · simp only [List.length_nil] at hlen
      omega
    · simp only [List.length_cons, List.length_nil] at hlen
      omega
    · obtain ⟨t', c₁', rfl, -, hc₁⟩ := hc.cons_inv
      obtain ⟨u', c₂, rfl, hu, -⟩ := hc₁.cons_inv
      have hsame := (h u.kind).same hc hl hz hp
      rw [hu] at hsame
      exact hsame

theorem level {f g : Int → Read α} (h : ∀ l l', SameLevel l l' → Exchanges x inner (f l) (g l')) :
    Exchanges x inner (level >>= f) (level >>= g) where
  forward {s _ _} hs := (h s.level s.level (.inl rfl)).forward hs
  same hc hl hz hp := (h _ _ hl).same hc hl hz hp

theorem atSymbol {sym : Symbol} {f g : Bool → Read α} (hsym : (Kind.symbol sym).isStop = false)
    (h : ∀ b, Exchanges x inner (f b) (g b)) :
    Exchanges x inner (atSymbol sym >>= f) (atSymbol sym >>= g) := by
  have hstops : ∀ e : Bool → Read α, StopsAlike fun k => e (k == .symbol sym) := by
    intro e k hk
    have hne : k ≠ .symbol sym := by
      rintro rfl
      rw [hk] at hsym
      cases hsym
    change e (k == .symbol sym) = e false
    rw [beq_eq_false_iff_ne.mpr hne]
  exact peek (hstops f) (hstops g) fun k => h _

/-- Tokens of the same kinds look the same in front of the old and the new tokens. -/
theorem look {φ : List Token → Bool} {f g : Bool → Read α}
    (hφ : ∀ {c c'}, Agree c c' → φ (c ++ x.old) = φ (c' ++ x.new))
    (h : ∀ b, Exchanges x inner (f b) (g b)) :
    Exchanges x inner (fun s => f (φ s.tokens) s) fun s => g (φ s.tokens) s where
  forward {s a s'} hs := (h (φ s.tokens)).forward hs
  same {c c' l l' a z} hc hl hz hp := by
    have hsame := (h (φ (c ++ x.old))).same hc hl hz hp
    rwa [hφ hc] at hsame

theorem atListEnd {sym : Symbol} {f g : Bool → Read α} (h : ∀ b, Exchanges x true (f b) (g b)) :
    Exchanges x true (atListEnd sym >>= f) (atListEnd sym >>= g) :=
  peek_inner (f := fun k => f (k == .symbol sym || k == .eof))
    (g := fun k => g (k == .symbol sym || k == .eof)) fun _ => h _

theorem atSemicolon {f g : Bool → Read α} (h : ∀ b, Exchanges x true (f b) (g b)) :
    Exchanges x true (atSemicolon >>= f) (atSemicolon >>= g) :=
  peek_inner (f := fun k => f k.isSemicolon) (g := fun k => g k.isSemicolon) fun _ => h _

/-! ## Taking tokens -/

theorem skip {f g : Unit → Read α} (h : Exchanges x inner (f ()) (g ())) :
    Exchanges x inner (skip >>= f) (skip >>= g) where
  forward {s _ _} hs := by
    obtain ⟨hf, hl⟩ := h.forward (s := { s with tokens := s.tokens.tail }) hs
    exact ⟨hf.trans (List.tail_suffix _), hl⟩
  same {c c' l l' a z} hc hl hz hp := by
    cases c with
    | nil =>
      have hlen := (h.forward (s := ⟨x.old.tail, l⟩) hp).1.length_le
      have hpos := List.length_pos_iff.mpr x.old_ne_nil
      simp only [List.length_append, List.length_tail] at hlen
      omega
    | cons t c =>
      obtain ⟨t', c₁, rfl, -, hc₁⟩ := hc.cons_inv
      exact h.same hc₁ hl hz hp

/-- A reader that stops at a semicolon has not started in front of the old tokens. -/
theorem peek_start {f g : Kind → Read α}
    (hf : ∀ k, k.isSemicolon = true → ∀ s y, f k s ≠ .ok y)
    (h : ∀ k, Exchanges x inner (f k) (g k)) :
    Exchanges x inner (Read.peek >>= f) (Read.peek >>= g) where
  forward {s a s'} hs := (h (headKind s.tokens)).forward hs
  same {c c' l l' a z} hc hl hz hp := by
    cases c with
    | nil => exact absurd hp (hf _ x.semicolon _ _)
    | cons t c =>
      obtain ⟨t', c₁, rfl, ht, -⟩ := hc.cons_inv
      have hsame := (h t.kind).same hc hl hz hp
      rw [ht] at hsame
      exact hsame

/-- Taking a token that is no semicolon. -/
theorem take {k₀ : Kind} {f g : Unit → Read α} {w : Wanted} (hk₀ : k₀.isSemicolon = false)
    (h : Exchanges x inner (f ()) (g ())) : Exchanges x inner
      (Read.peek >>= fun k => (if k == k₀ then Read.skip else Read.unexpected w) >>= f)
      (Read.peek >>= fun k => (if k == k₀ then Read.skip else Read.unexpected w) >>= g) := by
  refine peek_start (fun k hk s y => ?_) fun k => ?_
  · have hne : (k == k₀) = false := by
      rw [beq_eq_false_iff_ne]
      rintro rfl
      rw [hk] at hk₀
      cases hk₀
    rw [hne]
    exact nofun
  · split
    · exact skip h
    · exact fail_bind _ _

theorem expect {sym : Symbol} {f g : Unit → Read α} (hsym : (Kind.symbol sym).isSemicolon = false)
    (h : Exchanges x inner (f ()) (g ())) :
    Exchanges x inner (expect sym >>= f) (expect sym >>= g) := by
  simp only [Read.expect, Read.atSymbol, bind_assoc, pure_bind]
  exact take hsym h

theorem expectKeyword {w : Keyword} {f g : Unit → Read α} (h : Exchanges x inner (f ()) (g ())) :
    Exchanges x inner (expectKeyword w >>= f) (expectKeyword w >>= g) := by
  simp only [Read.expectKeyword, bind_assoc]
  exact take rfl h

theorem expectName {f g : String → Read α} (h : ∀ n, Exchanges x inner (f n) (g n)) :
    Exchanges x inner (expectName >>= f) (expectName >>= g) := by
  simp only [Read.expectName, bind_assoc]
  refine peek_start (fun k hk s y => ?_) fun k => ?_
  · intro hs
    rcases isSemicolon_iff.mp hk with rfl | rfl <;> cases hs
  · split
    · simp only [bind_assoc, pure_bind]
      exact skip (h _)
    · exact fail_bind _ _

/-- A reader inside of brackets stops before the old tokens. -/
theorem bind_expect {sym : Symbol} {f g : α → Read β} (hp : Exchanges x true p q)
    (hsym : (Kind.symbol sym).isSemicolon = false) (hf : ∀ a, Exchanges x inner (f a) (g a)) :
    Exchanges x inner (p >>= fun a => Read.expect sym >>= fun _ => f a)
      (q >>= fun a => Read.expect sym >>= fun _ => g a) := by
  refine bind_of hp (fun _ => .inr fun a l y he => ?_) fun a => expect hsym (hf a)
  obtain ⟨u, s₁, hexpect, -⟩ := bind_eq_ok.mp he
  rw [expect_of_head_ne (x.headKind_old_ne hsym)] at hexpect
  cases hexpect

theorem statementEnd : Exchanges x true statementEnd statementEnd := by
  unfold Read.statementEnd
  refine peek_inner fun k => ?_
  have hskip : Exchanges x true Read.skip Read.skip := by
    have h : Exchanges x true (Read.skip >>= pure) (Read.skip >>= pure) := skip (.of_pure ())
    rwa [bind_pure] at h
  split
  · exact hskip
  · exact hskip
  · exact .of_pure ()
  · exact .of_pure ()
  · exact .of_pure ()
  · exact .unexpected _

/-! ## Nesting levels -/

theorem nested (h : Exchanges x inner p q) : Exchanges x inner (nested p) (nested q) where
  forward {s a s'} hs := by
    obtain ⟨s₁, hp, rfl⟩ := nested_eq_ok.mp hs
    obtain ⟨hsuffix, hlevel⟩ := h.forward hp
    have hback : s₁.level - 1 = s.level := by
      rw [hlevel]
      exact Int.add_sub_cancel _ _
    exact ⟨hsuffix, hback⟩
  same {c c' l l' a z} hc hl hz hs := by
    obtain ⟨⟨ts, l₁⟩, hp, hs⟩ := nested_eq_ok.mp hs
    obtain ⟨rfl, -⟩ := ReadState.mk.inj hs
    obtain rfl : l₁ = l + 1 := (h.forward hp).2
    obtain ⟨z', hz', hq⟩ := h.same hc hl.succ hz hp
    exact ⟨z', hz', nested_of_ok hq⟩

theorem header (h : Exchanges x inner p q) : Exchanges x inner (header p) (header q) where
  forward {s a s'} hs := by
    obtain ⟨s₁, hp, rfl⟩ := header_eq_ok.mp hs
    exact ⟨(h.forward hp).1, rfl⟩
  same {c c' l l' a z} hc hl hz hs := by
    obtain ⟨⟨ts, l₁⟩, hp, hs⟩ := header_eq_ok.mp hs
    obtain ⟨rfl, -⟩ := ReadState.mk.inj hs
    obtain rfl : l₁ = -1 := (h.forward hp).2
    obtain ⟨z', hz', hq⟩ := h.same hc (.inl rfl) hz hp
    exact ⟨z', hz', header_eq_ok.mpr ⟨_, hq, rfl⟩⟩

end Exchanges

/-- Phrases that may stop in front of the old tokens.  The others stand between brackets, where
something has to follow. -/
def Phrase.isOpen {α : Type} : Phrase α → Bool
  | .binary _ | .binaryTail .. | .unary | .primaryTail _ | .type => true
  | _ => false

/-- The readers of all phrases read the same in front of other tokens. -/
def Phrases.Exchange (x : Exchange) (rec rec' : Phrases) : Prop :=
  ∀ {α : Type} (ph : Phrase α), Exchanges x (!ph.isOpen) (rec ph) (rec' ph)

namespace Phrases.Exchange

variable {x : Syntax.Exchange} {rec rec' : Phrases} (h : Phrases.Exchange x rec rec')

include h

theorem binary (prec : Nat) : Exchanges x false (rec (.binary prec)) (rec' (.binary prec)) :=
  h (.binary prec)

theorem binaryTail (prec : Nat) (left : Expr) :
    Exchanges x false (rec (.binaryTail prec left)) (rec' (.binaryTail prec left)) :=
  h (.binaryTail prec left)

end Phrases.Exchange

/-! ## Types -/

section Types

variable {x : Exchange} {inner : Bool} {rec rec' : Phrases} (h : Phrases.Exchange x rec rec')

include h

theorem names_exchanges : Exchanges x true (names rec) (names rec') := by
  unfold names
  exact .expectName fun n => .bind (h .namesTail) fun ns => .of_pure _

theorem namesTail_exchanges : Exchanges x true (namesTail rec) (namesTail rec') := by
  unfold namesTail
  refine .peek_inner fun k => ?_
  split
  · exact .skip (names_exchanges h)
  · exact .of_pure _

theorem paramList_exchanges : Exchanges x inner (paramList rec) (paramList rec') := by
  unfold paramList
  exact .expect rfl (.bind_expect (h .params) rfl fun fs => .of_pure _)

theorem signature_exchanges : Exchanges x false (signature rec) (signature rec') := by
  unfold signature
  refine .bind (paramList_exchanges h) fun ps => ?_
  refine .peek (.intro rfl rfl) (.intro rfl rfl) fun k => ?_
  split
  · exact .bind (paramList_exchanges h) fun rs => .of_pure _
  · split
    · exact .bind (h .type) fun t => .of_pure _
    · exact .of_pure _

theorem structType_exchanges : Exchanges x inner (structType rec) (structType rec') := by
  unfold structType
  exact .expectKeyword (.expect rfl (.bind_expect (h .fields) rfl fun fs => .of_pure _))

theorem interfaceType_exchanges :
    Exchanges x inner (interfaceType rec) (interfaceType rec') := by
  unfold interfaceType
  exact .expectKeyword (.expect rfl (.bind_expect (h .interfaceItems) rfl fun is => .of_pure _))

theorem types_exchanges : Exchanges x true (types rec) (types rec') := by
  unfold types
  exact .bind (h .type).weaken fun t => .bind (h .typesTail) fun ts => .of_pure _

theorem typesTail_exchanges : Exchanges x true (typesTail rec) (typesTail rec') := by
  unfold typesTail
  refine .atSymbol rfl fun b => ?_
  split
  · exact .skip (types_exchanges h)
  · exact .of_pure _

theorem typeArgsTail_exchanges : Exchanges x true (typeArgsTail rec) (typeArgsTail rec') := by
  unfold typeArgsTail
  refine .atSymbol rfl fun b => ?_
  split
  · refine .skip (.atSymbol rfl fun b => ?_)
    split
    · exact .of_pure _
    · exact .bind (h .type).weaken fun t => .bind (h .typeArgsTail) fun ts => .of_pure _
  · exact .of_pure _

/-- Whether type arguments follow: a bracket that is not closed at once. -/
def opensArguments (ts : List Token) : Bool :=
  headKind ts == .symbol .lbrack && headKind ts.tail != .symbol .rbrack

omit h in
theorem opensArguments_exchange {c c' : List Token} (hc : Agree c c') :
    opensArguments (c ++ x.old) = opensArguments (c' ++ x.new) := by
  have hstop : ∀ {k : Kind}, k.isStop = true → (k == .symbol .lbrack) = false ∧
      (k != .symbol .rbrack) = true := by
    intro k hk
    unfold Kind.isStop at hk
    split at hk
    · exact ⟨rfl, rfl⟩
    · exact ⟨rfl, rfl⟩
    · exact ⟨rfl, rfl⟩
    · cases hk
  rcases c with _ | ⟨t, _ | ⟨u, c⟩⟩
  · obtain rfl := hc.nil_inv
    rw [opensArguments, opensArguments, List.nil_append, List.nil_append, (hstop x.stop_old).1,
      (hstop x.stop).1]
    rfl
  · obtain ⟨t', c₁, rfl, ht, hc₁⟩ := hc.cons_inv
    obtain rfl := hc₁.nil_inv
    change (t.kind == _ && headKind x.old != _) = (t'.kind == _ && headKind x.new != _)
    rw [ht, (hstop x.stop_old).2, (hstop x.stop).2]
  · obtain ⟨t', c₁, rfl, ht, hc₁⟩ := hc.cons_inv
    obtain ⟨u', c₂, rfl, hu, -⟩ := hc₁.cons_inv
    change (t.kind == _ && u.kind != _) = (t'.kind == _ && u'.kind != _)
    rw [ht, hu]

theorem typeArguments_exchanges (base : Expr) :
    Exchanges x inner (typeArguments rec base) (typeArguments rec' base) := by
  refine .look (f := fun b => if b then _ else pure base)
    (g := fun b => if b then _ else pure base) opensArguments_exchange fun b => ?_
  split
  · exact .skip (.bind_expect (types_exchanges h) rfl fun us => .of_pure _)
  · exact .of_pure _

theorem namedTail_exchanges (n : String) :
    Exchanges x inner (namedTail rec n) (namedTail rec' n) := by
  rw [namedTail_eq, namedTail_eq]
  refine .atSymbol rfl fun b => ?_
  split
  · exact .skip (.expectName fun f => typeArguments_exchanges h _)
  · exact typeArguments_exchanges h _

theorem arrayTail_exchanges : Exchanges x false (arrayTail rec) (arrayTail rec') := by
  unfold arrayTail
  have helem : ∀ len, Exchanges x false
      (expect .rbrack >>= fun _ => rec .type >>= fun t => pure (Expr.arrayType len t))
      (expect .rbrack >>= fun _ => rec' .type >>= fun t => pure (Expr.arrayType len t)) :=
    fun len => .expect rfl (.bind (h .type) fun t => .of_pure _)
  refine .peek (.intro rfl rfl) (.intro rfl rfl) fun k => ?_
  split
  · exact helem none
  · exact .skip (helem _)
  · exact .bind_expect (.nested (h (.binary 1)).weaken) rfl fun n =>
      .bind (h .type) fun t => .of_pure _

theorem type_exchanges : Exchanges x false (type rec) (type rec') := by
  unfold type
  refine .peek (.intro rfl rfl) (.intro rfl rfl) fun k => ?_
  split
  · exact .skip (namedTail_exchanges h _)
  · exact .skip (arrayTail_exchanges h)
  · exact structType_exchanges h
  · exact interfaceType_exchanges h
  · exact .skip (.bind (h .type) fun t => .of_pure _)
  · exact .skip (.bind (signature_exchanges h) fun s => .of_pure _)
  · refine .skip (.expect rfl (.bind_expect (h .type).weaken rfl fun k => ?_))
    exact .bind (h .type) fun v => .of_pure _
  · have helem : ∀ dir, Exchanges x false
        (rec .type >>= fun t => pure (Expr.chanType dir t))
        (rec' .type >>= fun t => pure (Expr.chanType dir t)) :=
      fun dir => .bind (h .type) fun t => .of_pure _
    refine .skip (.atSymbol rfl fun b => ?_)
    split
    · exact .skip (helem _)
    · exact helem _
  · exact .skip (.expectKeyword (.bind (h .type) fun t => .of_pure _))
  · exact .skip (.bind_expect (h .type).weaken rfl fun t => .of_pure _)
  · exact .unexpected _

theorem params_exchanges : Exchanges x true (params rec) (params rec') := by
  unfold params
  refine .atListEnd fun b => ?_
  split
  · exact .of_pure _
  refine .peek_inner fun k => ?_
  extract_lets named typed typed'
  have htyped : ∀ ns, Exchanges x true (typed ns) (typed' ns) := fun ns => by
    refine .atSymbol rfl fun b => ?_
    have hmore : ∀ t, Exchanges x true
        (atSymbol .comma >>= fun b => if b = true then do
            skip
            let fs ← rec .params
            return Field.mk ns t :: fs
          else return [Field.mk ns t])
        (atSymbol .comma >>= fun b => if b = true then do
            skip
            let fs ← rec' .params
            return Field.mk ns t :: fs
          else return [Field.mk ns t]) := fun t => by
      refine .atSymbol rfl fun b => ?_
      split
      · exact .skip (.bind (h .params) fun fs => .of_pure _)
      · exact .of_pure _
    split
    · exact .skip (.bind (type_exchanges h).weaken fun t => hmore _)
    · exact .bind (type_exchanges h).weaken fun t => hmore t
  refine .peekSecond ?_ ?_ fun second => ?_
  · exact .intro rfl rfl
  · exact .intro rfl rfl
  split
  · exact .expectName fun n => htyped _
  · exact htyped _

theorem unionTerm_exchanges : Exchanges x true (unionTerm rec) (unionTerm rec') := by
  unfold unionTerm
  refine .atSymbol rfl fun b => ?_
  split
  · exact .skip (.bind (type_exchanges h).weaken fun t => .of_pure _)
  · exact (type_exchanges h).weaken

theorem unionTail_exchanges : Exchanges x true (unionTail rec) (unionTail rec') := by
  unfold unionTail
  refine .atSymbol rfl fun b => ?_
  split
  · exact .skip (.bind (unionTerm_exchanges h) fun t => .bind (h .unionTail) fun us => .of_pure _)
  · exact .of_pure _

theorem interfaceItem_exchanges :
    Exchanges x true (interfaceItem rec) (interfaceItem rec') := by
  unfold interfaceItem
  refine .peekSecond (.bind fun k => ?_) (.bind fun k => ?_) fun second => .peek_inner fun k => ?_
  · exact .intro (by cases k <;> rfl) (by cases k <;> rfl)
  · exact .intro (by cases k <;> rfl) (by cases k <;> rfl)
  split
  · exact .skip (.bind (signature_exchanges h).weaken fun s => .of_pure _)
  · exact .bind (unionTerm_exchanges h) fun t => .bind (h .unionTail) fun us => .of_pure _

theorem interfaceItems_exchanges :
    Exchanges x true (interfaceItems rec) (interfaceItems rec') := by
  unfold interfaceItems
  refine .atListEnd fun b => ?_
  split
  · exact .of_pure _
  · refine .bind (interfaceItem_exchanges h) fun i => .bind .statementEnd fun _ => ?_
    exact .bind (h .interfaceItems) fun is => .of_pure _

variable (hn : Phrases.Nest rec) (he : Phrases.Ends rec)

include hn he

theorem field_exchanges : Exchanges x true (field rec) (field rec') := by
  unfold field
  refine .peek_inner fun k => ?_
  extract_lets typed named typed' named'
  have htyped : ∀ ns, Exchanges x true (typed ns) (typed' ns) := fun ns => by
    refine .bind (type_exchanges h).weaken fun t => .peek_inner fun k => ?_
    split
    · exact .skip (.of_pure _)
    · exact .of_pure _
  have hnamed : ∀ embedded, Exchanges x true (named embedded) (named' embedded) :=
    fun embedded => by
    simp only [named, named']
    split
    · exact htyped _
    · exact .bind (names_exchanges h) fun ns => htyped _
  have htaking : ∀ embedded ts, Ends true ts (named embedded) := fun embedded ts => by
    have htyped : ∀ ns zs, Ends true zs (typed ns) := fun ns zs => by
      refine .bind (type_ends hn he) fun t _ => .peek fun k hk => ?_
      split
      · exact .skip_last hk rfl fun _ => .of_pure _
      · exact .of_pure _
    simp only [named]
    split
    · exact htyped _ _
    · exact .behind (names_takes hn) fun ns _ => htyped _ _
  split
  · exact .bind (.of_pure true) hnamed
  · refine .peekSecond_taking (fun second ts => ?_) fun second => ?_
    · rw [pure_bind]
      exact htaking _ _
    · exact .bind (.of_pure _) hnamed
  · exact .fail_bind _ _

theorem fields_exchanges : Exchanges x true (fields rec) (fields rec') := by
  unfold fields
  refine .atListEnd fun b => ?_
  split
  · exact .of_pure _
  · refine .bind (field_exchanges h hn he) fun f => .bind .statementEnd fun _ => ?_
    exact .bind (h .fields) fun fs => .of_pure _

end Types

end Syntax

end GoRepl
