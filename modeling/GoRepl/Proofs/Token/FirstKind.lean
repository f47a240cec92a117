import GoRepl.Proofs.Token.Kinds
import Mathlib.Data.List.TakeWhile

/-! # The first token of a source

* `Piece.cutBefore`: the pieces of a source before the first fault.
* `Token.firstKind?`: the first token of a source, which may have a fault further behind.
* `Token.headKind_of_firstKind?`: the tokens of a source begin with its first one.
* `Token.IsName`: a text that is a name; `Piece.first_of_isName`: it is read again.
* `Token.isName_of_mem`, `Token.IsName.firstKind?`: the names among the tokens of a source, each of
  which is the first token of its own text.
-/

namespace GoRepl

namespace Piece

/-- The token that the piece is. -/
def kind? : Piece → Option Kind
  | written kind _ => some kind
  | _ => none

/-- The pieces of a source before the first fault. -/
def cutBefore (cs : List Char) : List Piece :=
  match cut cs with
  | .ok ps => ps
  | .error (ps, _) => ps

theorem cutBefore_nil : cutBefore [] = [] := by rw [cutBefore, cut]

theorem cutBefore_cons (c : Char) (r : List Char) : cutBefore (c :: r) =
    match first c r with
    | .ok p => p :: cutBefore (r.drop (p.text.length - 1))
    | .error _ => [] := by
  unfold cutBefore
  rw [cut]
  cases first c r with
  | error e => rfl
  | ok p =>
    dsimp only
    cases cut (r.drop (p.text.length - 1)) <;> rfl

theorem cutBefore_of_cut {cs : List Char} {ps : List Piece} (h : cut cs = .ok ps) :
    cutBefore cs = ps := by rw [cutBefore, h]

/-- The first piece that is a token gives the first token. -/
theorem kinds_of_kind? {ps : List Piece} {k : Kind} (h : ps.findSome? kind? = some k) :
    ∃ ks, kinds false ps = k :: ks := by
  induction ps with
  | nil => cases h
  | cons p ps ih =>
    cases p with
    | newline => exact ih h
    | blank c => exact ih h
    | lineComment t => exact ih h
    | written kind t =>
      cases h
      exact ⟨_, rfl⟩
    | blockComment t =>
      rw [kinds]
      split
      · exact ih h
      · exact ih h

/-- A token that is neither a semicolon nor the end mark was written. -/
theorem exists_written {ends : Bool} {ps : List Piece} {k : Kind} (h : k ∈ kinds ends ps)
    (hn : k ≠ .newline) (he : k ≠ .eof) : ∃ t, written k t ∈ ps := by
  have hended : ∀ ends, k ∉ ended ends := by
    intro ends hk
    cases ends with
    | false => cases hk
    | true => exact hn (List.mem_singleton.mp hk)
  induction ps generalizing ends with
  | nil =>
    rcases List.mem_append.mp h with h | h
    · exact absurd h (hended _)
    · exact absurd (List.mem_singleton.mp h) he
  | cons p ps ih =>
    have htail : ∀ ends, k ∈ kinds ends ps → ∃ t, written k t ∈ p :: ps := by
      intro ends hk
      obtain ⟨t, ht⟩ := ih hk
      exact ⟨t, .tail _ ht⟩
    have hafter : k ∈ ended ends ++ kinds false ps → ∃ t, written k t ∈ p :: ps := fun hk =>
      (List.mem_append.mp hk).elim (fun hk => absurd hk (hended _)) (htail false)
    cases p with
    | newline => exact hafter h
    | blank c => exact htail _ h
    | lineComment t => exact htail _ h
    | written k' t =>
      rcases List.mem_cons.mp h with rfl | h
      · exact ⟨t, .head _⟩
      · exact htail _ h
    | blockComment t =>
      rw [kinds] at h
      split at h
      · exact hafter h
      · exact htail _ h

/-! ## Words -/

theorem not_isDigit_of_startsWord {c : Char} (hc : startsWord c = true) : c.isDigit = false := by
  cases hd : c.isDigit with
  | false => rfl
  | true =>
    -- the digits lie below the letters and the underscore
    simp only [Char.isDigit, Bool.and_eq_true, decide_eq_true_iff] at hd
    have hlow : c.toNat ≤ 57 := hd.2
    have hsmall : c.toNat < 0x80 := by omega
    rw [startsWord, Text.isLetter, if_pos hsmall] at hc
    rcases (Bool.or_eq_true _ _).mp hc with halpha | hunder
    · have hhigh : 65 ≤ c.toNat ∨ 97 ≤ c.toNat := by
        rcases (Bool.or_eq_true _ _).mp halpha with hupper | hlower
        · exact .inl (of_decide_eq_true hupper).1
        · exact .inr (of_decide_eq_true ((Bool.and_eq_true _ _).mp hlower).1)
      omega
    · rw [eq_of_beq hunder] at hlow
      exact absurd hlow (by decide)

/-- Nothing but a word begins with such a character. -/
theorem first_word {c : Char} (hc : startsWord c = true) (r : List Char) :
    first c r = .ok (written (Kind.ofWord (String.ofList (c :: r.takeWhile Number.isWordChar)))
      (c :: r.takeWhile Number.isWordChar)) := by
  have hne : ∀ d, startsWord d = false → c ≠ d := by
    rintro d hd rfl
    rw [hc] at hd
    cases hd
  have hblank : ¬(c = ' ' ∨ c = '\t' ∨ c = '\r') := by
    rintro (h | h | h)
    all_goals exact absurd h (hne _ (by decide))
  have hnumber : ¬startsNumber c r = true := by
    simp [startsNumber, not_isDigit_of_startsWord hc, hne '.' (by decide)]
  unfold first
  rw [if_neg (hne _ (by decide)), if_neg hblank, if_neg fun h => hne '/' (by decide) h.1,
    if_neg fun h => hne '/' (by decide) h.1, if_neg (hne _ (by decide)),
    if_neg (hne _ (by decide)), if_neg (hne _ (by decide)), if_neg hnumber, if_pos hc]

end Piece

/-- The text is a name: a word that is no keyword. -/
structure Token.IsName (n : String) : Prop where
  word : ∃ c w, n.toList = c :: w ∧ Piece.startsWord c = true ∧
    ∀ d ∈ w, Number.isWordChar d = true
  free : Keyword.ofString? n = none

namespace Piece

theorem isName_of_first {c : Char} {r t : List Char} {n : String}
    (h : first c r = .ok (written (.name n) t)) : Token.IsName n := by
  generalize hp : written (.name n) t = p at h
  cases begins_of_first h with
  | word text starts =>
    injection hp with hkind ht
    unfold Kind.ofWord at hkind
    split at hkind
    · cases hkind
    · rename_i hfree
      cases hkind
      subst text
      exact ⟨⟨c, _, String.toList_ofList, starts, fun _ => List.mem_takeWhile_imp⟩, hfree⟩
  | _ => cases hp

/-- A name is read again from its own text, if it does not go on behind that. -/
theorem first_of_isName {n : String} (h : Token.IsName n) {z : List Char}
    (hz : ∀ d ∈ z.head?, Number.isWordChar d = false) :
    ∃ c w, n.toList = c :: w ∧ first c (w ++ z) = .ok (written (.name n) n.toList) := by
  obtain ⟨⟨c, w, hlist, hc, hw⟩, hfree⟩ := h
  have htake : (w ++ z).takeWhile Number.isWordChar = w := by
    rw [List.takeWhile_append_of_pos hw]
    cases z with
    | nil => exact List.append_nil w
    | cons d z =>
      rw [List.takeWhile_cons_of_neg (by rw [hz d rfl]; exact Bool.false_ne_true), List.append_nil]
  have hword : Kind.ofWord n = .name n := by rw [Kind.ofWord, hfree]
  refine ⟨c, w, hlist, ?_⟩
  rw [first_word hc, htake, ← hlist, String.ofList_toList, hword]

end Piece

namespace Token

/-- The first token of a source, if no fault precedes it. -/
def firstKind? (source : String) : Option Kind :=
  (Piece.cutBefore source.toList).findSome? Piece.kind?

/-- The tokens of a source begin with its first one. -/
theorem headKind_of_firstKind? {source : String} {k : Kind} {ts : List Token}
    (h : firstKind? source = some k) (hts : ofSource source = .ok ts) :
    ∃ t ts', ts = t :: ts' ∧ t.kind = k := by
  obtain ⟨ps, hcut, hkinds⟩ := map_kind_ofSource hts
  rw [firstKind?, Piece.cutBefore_of_cut hcut] at h
  obtain ⟨ks, hks⟩ := Piece.kinds_of_kind? h
  obtain ⟨t, ts', rfl, ht, -⟩ := List.map_eq_cons_iff.mp (hkinds.trans hks)
  exact ⟨t, ts', rfl, ht⟩

/-- The names among the tokens of a source are names of their own. -/
theorem isName_of_mem {source : String} {ts : List Token} (hts : ofSource source = .ok ts)
    {t : Token} (ht : t ∈ ts) {n : String} (hn : t.kind = .name n) : IsName n := by
  obtain ⟨ps, hcut, hkinds⟩ := map_kind_ofSource hts
  have hmem : Kind.name n ∈ Piece.kinds false ps := by
    rw [← hkinds, ← hn]
    exact List.mem_map_of_mem ht
  obtain ⟨text, hwritten⟩ := Piece.exists_written hmem nofun nofun
  obtain ⟨c, r, hfirst⟩ := Piece.exists_first_of_mem hcut hwritten
  exact Piece.isName_of_first hfirst

/-- A name is the first token of its own text. -/
theorem IsName.firstKind? {n : String} (h : IsName n) : firstKind? n = some (.name n) := by
  obtain ⟨c, w, hlist, hfirst⟩ := Piece.first_of_isName h (z := []) nofun
  rw [List.append_nil] at hfirst
  rw [Token.firstKind?, hlist, Piece.cutBefore_cons, hfirst]
  rfl

end Token

end GoRepl
