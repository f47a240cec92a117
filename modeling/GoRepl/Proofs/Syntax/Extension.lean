import GoRepl.Proofs.Syntax.Reader

/-! # Reading with more tokens behind

A reader looks at most at the token behind those that it takes.  So if it stops before the end of
its tokens, it reads the same when others follow them.  If it takes them all, the first of those
that follow decides: where `p` met the end of the source, the other reader meets a `{`.

* `Extends`: a reader that reads with more tokens behind what another one reads without them.
* `Ending`: what it does when the first reader has taken all tokens.
* `Extends.bind` and the lemmas behind it: one for each way to compose readers.
-/

namespace GoRepl.Syntax

open Read

/-- What a reader that stands before the tokens behind does at nesting level `l`, given the value
that was read without them. -/
abbrev Ending (α : Type) : Type := Int → α → Except ReadFault (α × ReadState) → Prop

namespace Ending

/-- Nothing is known. -/
def any {α : Type} : Ending α := fun _ _ _ => True

/-- The same value is read, and no token of those behind is taken. -/
def same {α : Type} (tl : List Token) : Ending α := fun l a r => r = .ok (a, ⟨tl, l⟩)

end Ending

/-- Whatever `p` reads from `ys`, it keeps the level and leaves an end of `ys`.  If that is not
empty, `q` reads the same from `ys ++ tl`, at any level, otherwise it ends as `fin` says.  All
values that are read satisfy `post`. -/
def Extends {α : Type} (tl : List Token) (fin : Ending α) (post : α → Prop) (ys : List Token)
    (p q : Read α) : Prop :=
  ∀ l a s, p ⟨ys, l⟩ = .ok (a, s) →
    ∃ zs, s = ⟨zs, l⟩ ∧ zs <:+ ys ∧ post a ∧
      ∀ l', (zs ≠ [] → q ⟨ys ++ tl, l'⟩ = .ok (a, ⟨zs ++ tl, l'⟩)) ∧
        (zs = [] → fin l' a (q ⟨ys ++ tl, l'⟩))

variable {α β : Type} {tl ys ts : List Token} {t : Token}

namespace Extends

variable {fin : Ending α} {post : α → Prop} {p q : Read α}

/-! ## Weakening -/

theorem mono {fin' : Ending α} {post' : α → Prop} (h : Extends tl fin post ys p q)
    (hfin : ∀ l a r, post a → fin l a r → fin' l a r) (hpost : ∀ a, post a → post' a) :
    Extends tl fin' post' ys p q := by
  intro l a s hp
  obtain ⟨zs, hs, hzs, ha, hq⟩ := h l a s hp
  exact ⟨zs, hs, hzs, hpost a ha, fun l' => ⟨(hq l').1, fun hz => hfin l' a _ ha ((hq l').2 hz)⟩⟩

theorem any (h : Extends tl fin post ys p q) : Extends tl .any post ys p q :=
  h.mono (fun _ _ _ _ _ => trivial) fun _ ha => ha

theorem weaken {post' : α → Prop} (h : Extends tl fin post ys p q)
    (hpost : ∀ a, post a → post' a) : Extends tl fin post' ys p q :=
  h.mono (fun _ _ _ _ hr => hr) hpost

theorem forget (h : Extends tl fin post ys p q) : Extends tl fin (fun _ => True) ys p q :=
  h.mono (fun _ _ _ _ hr => hr) fun _ _ => trivial

/-- A reader that does not succeed is extended by every other one. -/
theorem of_error (h : ∀ l, ∃ e, p ⟨ys, l⟩ = .error e) : Extends tl fin post ys p q := by
  intro l a s hp
  obtain ⟨e, he⟩ := h l
  rw [he] at hp
  cases hp

theorem fail (f : SyntaxFault) : Extends tl fin post ys (fail f) q := of_error fun _ => ⟨_, rfl⟩

theorem unexpected (w : Wanted) : Extends tl fin post ys (unexpected w) q :=
  of_error fun _ => ⟨_, rfl⟩

/-! ## Composition -/

theorem of_pure {a : α} (ha : post a) : Extends tl (.same tl) post ys (pure a) (pure a) := by
  intro l b s hp
  cases hp
  refine ⟨ys, rfl, List.suffix_refl ys, ha, fun l' => ⟨fun _ => rfl, ?_⟩⟩
  rintro rfl
  rfl

/-- Before a token it does not matter what is behind the last one. -/
theorem of_pure_cons {a : α} (ha : post a) : Extends tl fin post (t :: ts) (pure a) (pure a) := by
  intro l b s hp
  cases hp
  exact ⟨t :: ts, rfl, List.suffix_refl _, ha, fun l' => ⟨fun _ => rfl, fun hz => by cases hz⟩⟩

variable {fin' : Ending β} {post' : β → Prop} {k k' : α → Read β}

/-- One reader behind another: `hend` is the case that the first one takes all tokens. -/
theorem bind (h : Extends tl fin post ys p q)
    (hk : ∀ a zs, zs <:+ ys → zs ≠ [] → post a → Extends tl fin' post' zs (k a) (k' a))
    (hend : ∀ a l b s, post a → k a ⟨[], l⟩ = .ok (b, s) → s = ⟨[], l⟩ ∧ post' b ∧
      ∀ l' r, fin l' a r → fin' l' b (r >>= fun x => k' x.1 x.2)) :
    Extends tl fin' post' ys (p >>= k) (q >>= k') := by
  intro l b s hp
  obtain ⟨a, s', hpa, hkb⟩ := bind_eq_ok.mp hp
  obtain ⟨zs, rfl, hzs, ha, hq⟩ := h l a s' hpa
  by_cases hz : zs = []
  · subst hz
    obtain ⟨rfl, hb, hfin⟩ := hend a l b s ha hkb
    exact ⟨[], rfl, List.nil_suffix, hb, fun l' =>
      ⟨fun hne => absurd rfl hne, fun _ => hfin l' _ ((hq l').2 rfl)⟩⟩
  · obtain ⟨zs', rfl, hzs', hb, hq'⟩ := hk a zs hzs hz ha l b s hkb
    refine ⟨zs', rfl, hzs'.trans hzs, hb, fun l' => ?_⟩
    rw [bind_of_ok ((hq l').1 hz)]
    exact hq' l'

/-- Behind a reader that leaves the tokens behind alone. -/
theorem bind_same (h : Extends tl (.same tl) post ys p q)
    (hk : ∀ a zs, zs <:+ ys → post a → Extends tl fin' post' zs (k a) (k' a)) :
    Extends tl fin' post' ys (p >>= k) (q >>= k') := by
  refine h.bind (fun a zs hzs _ ha => hk a zs hzs ha) ?_
  intro a l b s ha hkb
  obtain ⟨zs, rfl, hzs, hb, hq⟩ := hk a [] List.nil_suffix ha l b s hkb
  obtain rfl := List.suffix_nil.mp hzs
  refine ⟨rfl, hb, fun l' r hr => ?_⟩
  rw [show r = .ok (a, ⟨tl, l'⟩) from hr]
  exact (hq l').2 rfl

/-- If nothing need be known of the end. -/
theorem bind_any (h : Extends tl fin post ys p q)
    (hk : ∀ a zs, zs <:+ ys → post a → Extends tl .any post' zs (k a) (k' a)) :
    Extends tl .any post' ys (p >>= k) (q >>= k') := by
  refine h.bind (fun a zs hzs _ ha => hk a zs hzs ha) ?_
  intro a l b s ha hkb
  obtain ⟨zs, rfl, hzs, hb, -⟩ := hk a [] List.nil_suffix ha l b s hkb
  obtain rfl := List.suffix_nil.mp hzs
  exact ⟨rfl, hb, fun _ _ _ => trivial⟩

/-! ## Single tokens -/

theorem peek {f f' : Kind → Read α} (h : Extends tl fin post (t :: ts) (f t.kind) (f' t.kind)) :
    Extends tl fin post (t :: ts) (peek >>= f) (peek >>= f') := h

/-- Without tokens the first reader sees the end of the source, and the other one a `{`. -/
theorem peek_nil {f f' : Kind → Read α} (htl : headKind tl = .symbol .lbrace)
    (h : Extends tl fin post [] (f .eof) (f' (.symbol .lbrace))) :
    Extends tl fin post [] (Read.peek >>= f) (Read.peek >>= f') := by
  intro l a s hp
  obtain ⟨zs, hs, hzs, ha, hq⟩ := h l a s hp
  refine ⟨zs, hs, hzs, ha, fun l' => ?_⟩
  change (zs ≠ [] → f' (headKind tl) ⟨tl, l'⟩ = _) ∧
    (zs = [] → fin l' a (f' (headKind tl) ⟨tl, l'⟩))
  rw [htl]
  exact hq l'

theorem peekSecond {f f' : Kind → Read α}
    (h : Extends tl fin post ys (f (headKind ys.tail)) (f' (headKind (ys ++ tl).tail))) :
    Extends tl fin post ys (Read.peekSecond >>= f) (Read.peekSecond >>= f') := h

theorem skip {f f' : Unit → Read α} (h : Extends tl fin post ts (f ()) (f' ())) :
    Extends tl fin post (t :: ts) (skip >>= f) (skip >>= f') := by
  intro l a s hp
  obtain ⟨zs, hs, hzs, ha, hq⟩ := h l a s hp
  exact ⟨zs, hs, hzs.trans (List.suffix_cons t ts), ha, hq⟩

/-- Looking for a symbol other than the `{` that follows. -/
theorem atSymbol {f f' : Bool → Read α} {s : Symbol} (htl : headKind tl = .symbol .lbrace)
    (hs : s ≠ .lbrace)
    (htrue : ∀ t ts, ys = t :: ts → Extends tl fin post (t :: ts) (f true) (f' true))
    (hfalse : Extends tl fin post ys (f false) (f' false)) :
    Extends tl fin post ys (atSymbol s >>= f) (atSymbol s >>= f') := by
  cases ys with
  | nil =>
    have hq : ∀ l, (Read.atSymbol s >>= f') ⟨tl, l⟩ = f' false ⟨tl, l⟩ := by
      intro l
      have hne : (headKind tl == Kind.symbol s) = false := by
        rw [htl]
        simpa using Ne.symm hs
      change f' (headKind tl == Kind.symbol s) ⟨tl, l⟩ = _
      rw [hne]
    intro l a r hp
    obtain ⟨zs, hr, hzs, ha, hq'⟩ := hfalse l a r hp
    refine ⟨zs, hr, hzs, ha, fun l' => ?_⟩
    rw [List.nil_append, hq l']
    exact hq' l'
  | cons t ts =>
    change Extends tl fin post (t :: ts) (fun s' => f (t.kind == .symbol s) s')
      fun s' => f' (t.kind == .symbol s) s'
    cases t.kind == .symbol s with
    | true => exact htrue t ts rfl
    | false => exact hfalse

theorem ite_atSymbol {p₁ p₂ q₁ q₂ : Read α} {s : Symbol} (htl : headKind tl = .symbol .lbrace)
    (hs : s ≠ .lbrace) (htrue : ∀ t ts, ys = t :: ts → Extends tl fin post (t :: ts) p₁ q₁)
    (hfalse : Extends tl fin post ys p₂ q₂) :
    Extends tl fin post ys (Read.atSymbol s >>= fun b => if b = true then p₁ else p₂)
      (Read.atSymbol s >>= fun b => if b = true then q₁ else q₂) :=
  atSymbol htl hs htrue hfalse

theorem expect {f f' : Unit → Read α} {s : Symbol} (htl : headKind tl = .symbol .lbrace)
    (hs : s ≠ .lbrace) (h : ∀ t ts, ys = t :: ts → Extends tl fin post ts (f ()) (f' ())) :
    Extends tl fin post ys (expect s >>= f) (expect s >>= f') := by
  unfold Read.expect
  simp only [bind_assoc]
  refine atSymbol htl hs ?_ ?_
  · intro t ts ht
    exact skip (h t ts ht)
  · exact of_error fun _ => ⟨_, rfl⟩

theorem expectKeyword {f f' : Unit → Read α} {k : Keyword}
    (h : ∀ t ts, ys = t :: ts → Extends tl fin post ts (f ()) (f' ())) :
    Extends tl fin post ys (expectKeyword k >>= f) (expectKeyword k >>= f') := by
  unfold Read.expectKeyword
  rw [bind_assoc, bind_assoc]
  cases ys with
  | nil => exact of_error fun _ => ⟨_, rfl⟩
  | cons t ts =>
    refine peek ?_
    split
    · exact skip (h t ts rfl)
    · exact of_error fun _ => ⟨_, rfl⟩

theorem expectName {f f' : String → Read α}
    (h : ∀ n t ts, ys = t :: ts → Extends tl fin post ts (f n) (f' n)) :
    Extends tl fin post ys (expectName >>= f) (expectName >>= f') := by
  unfold Read.expectName
  rw [bind_assoc, bind_assoc]
  cases ys with
  | nil => exact of_error fun _ => ⟨_, rfl⟩
  | cons t ts =>
    refine peek ?_
    split
    · rename_i n _
      rw [bind_assoc, bind_assoc]
      refine skip ?_
      rw [pure_bind, pure_bind]
      exact h n t ts rfl
    · exact of_error fun _ => ⟨_, rfl⟩

/-! ## Brackets -/

/-- A token that must follow keeps the first reader from taking all tokens. -/
theorem bind_expect {f f' : α → Read β} {s : Symbol} (htl : headKind tl = .symbol .lbrace)
    (hs : s ≠ .lbrace) (h : Extends tl fin post ys p q)
    (hf : ∀ a zs, zs <:+ ys → post a → Extends tl fin' post' zs (f a) (f' a)) :
    Extends tl fin' post' ys (p >>= fun a => Read.expect s >>= fun _ => f a)
      (q >>= fun a => Read.expect s >>= fun _ => f' a) := by
  refine h.bind ?_ ?_
  · intro a zs hzs _ ha
    refine expect htl hs fun t ts hts => hf a ts ?_ ha
    exact (List.suffix_cons t ts).trans (hts ▸ hzs)
  · intro a l b s' _ hk
    cases hk

theorem nested (h : Extends tl fin post ys p q) :
    Extends tl .any post ys (nested p) (nested q) := by
  intro l a s hp
  obtain ⟨s₁, hpa, rfl⟩ := nested_eq_ok.mp hp
  obtain ⟨zs, rfl, hzs, ha, hq⟩ := h _ a s₁ hpa
  refine ⟨zs, ?_, hzs, ha, fun l' => ⟨fun hz => ?_, fun _ => trivial⟩⟩
  · exact congrArg (ReadState.mk zs) (Int.add_sub_cancel l 1)
  · exact nested_of_ok ((hq (l' + 1)).1 hz)

end Extends

end GoRepl.Syntax
