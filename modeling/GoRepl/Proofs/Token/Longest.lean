import GoRepl.Proofs.Fragment.Faults
import GoRepl.Proofs.Token.Tiling
import GoRepl.Proofs.Token.Truncation

/-! # The longest spelling is taken

Of all operators and delimiters that a text begins with, the longest is read.  A character that
begins one of them always gives one, because it is one by itself.

* `Symbol.candidates`: the operators and delimiters by their first character.
* `Symbol.read?_eq_some_iff`, `Symbol.read?_cons`: reading takes the longest, and the first in the
  table of its first character.
* `Token.StandsAt`, `Token.standsAt_of_mem`: what the source is from the start of a token on.
* `Token.longest_ofSource`: the operators and delimiters of a source.
-/

namespace GoRepl

namespace Symbol

variable {c : Char} {r cs : List Char} {s s' : Symbol}

/-! ## By the first character -/

/-- The operators and delimiters that begin with a character, in the order in which they are
tried. -/
def candidates : Char → List Symbol
  | '+' => [inc, compound .add, binary (.arith .add)]
  | '-' => [dec, compound .sub, binary (.arith .sub)]
  | '*' => [compound .mul, binary (.arith .mul)]
  | '/' => [compound .quo, binary (.arith .quo)]
  | '%' => [compound .rem, binary (.arith .rem)]
  | '&' => [compound .andNot, binary (.arith .andNot), binary .land, compound .and,
      binary (.arith .and)]
  | '|' => [binary .lor, compound .or, binary (.arith .or)]
  | '^' => [compound .xor, binary (.arith .xor)]
  | '<' => [compound .shl, binary (.arith .shl), arrow, binary .leq, binary .lss]
  | '>' => [compound .shr, binary (.arith .shr), binary .geq, binary .gtr]
  | '=' => [binary .eql, assign]
  | '!' => [binary .neq, not]
  | ':' => [define, colon]
  | '.' => [ellipsis, period]
  | '~' => [tilde]
  | ',' => [comma]
  | ';' => [semicolon]
  | '(' => [lparen]
  | ')' => [rparen]
  | '[' => [lbrack]
  | ']' => [rbrack]
  | '\x7b' => [lbrace]
  | '\x7d' => [rbrace]
  | _ => []

theorem mem_all (s : Symbol) : s ∈ all := by
  cases s with
  | binary op =>
    cases op with
    | arith op => cases op <;> decide
    | _ => decide
  | compound op => cases op <;> decide
  | _ => decide

theorem chars_injective (h : s.chars = s'.chars) : s = s' := by
  have hall : ∀ s ∈ all, ∀ s' ∈ all, s.chars = s'.chars → s = s' := by decide +kernel
  exact hall s (mem_all s) s' (mem_all s') h

theorem mem_candidates : s ∈ candidates c ↔ s.chars.head? = some c := by
  constructor
  · have hall : ∀ s ∈ candidates c, s.chars.head? = some c := by
      unfold candidates
      split <;> first | decide | exact List.forall_mem_nil _
    exact hall s
  · intro h
    have hall : ∀ s ∈ all, s ∈ s.chars.head?.elim [] candidates := by decide +kernel
    have hs := hall s (mem_all s)
    rwa [h, Option.elim_some] at hs

theorem pairwise_candidates (c : Char) :
    (candidates c).Pairwise fun s s' => s'.chars.length ≤ s.chars.length := by
  unfold candidates
  split <;> decide

/-- A character that begins an operator or delimiter is one itself. -/
theorem exists_single (h : candidates c ≠ []) : ∃ s ∈ candidates c, s.chars = [c] := by
  revert h
  unfold candidates
  split <;> first | decide | exact fun h => absurd rfl h

/-! ## The longest -/

theorem mem_longestFirst (s : Symbol) : s ∈ longestFirst := by
  have hall : ∀ s ∈ all, s ∈ longestFirst := by decide +kernel
  exact hall s (mem_all s)

theorem pairwise_longestFirst :
    longestFirst.Pairwise fun s s' => s'.chars.length ≤ s.chars.length := by decide +kernel

/-- In a list with longer spellings first, the first that fits is the longest that fits. -/
theorem longest_of_find? {l : List Symbol}
    (hl : l.Pairwise fun s s' => s'.chars.length ≤ s.chars.length)
    (h : l.find? (·.chars.isPrefixOf cs) = some s) :
    s.chars <+: cs ∧ ∀ s' ∈ l, s'.chars <+: cs → s'.chars.length ≤ s.chars.length := by
  obtain ⟨hs, before, behind, rfl, hnone⟩ := List.find?_eq_some_iff_append.mp h
  refine ⟨List.isPrefixOf_iff_prefix.mp hs, fun s' hs' hpre => ?_⟩
  rcases List.mem_append.mp hs' with hbefore | hbehind
  · have hnot := hnone s' hbefore
    rw [List.isPrefixOf_iff_prefix.mpr hpre] at hnot
    cases hnot
  · rcases List.mem_cons.mp hbehind with rfl | hbehind
    · exact le_refl _
    · exact (List.pairwise_cons.mp (List.pairwise_append.mp hl).2.1).1 s' hbehind

/-- Two spellings of the same length that a text begins with are the same. -/
theorem eq_of_fits (h : s.chars <+: cs) (h' : s'.chars <+: cs)
    (hlen : s.chars.length = s'.chars.length) : s = s' :=
  chars_injective ((List.prefix_of_prefix_length_le h h' hlen.le).eq_of_length hlen)

theorem read?_eq_some_iff : read? cs = some s ↔
    s.chars <+: cs ∧ ∀ s' : Symbol, s'.chars <+: cs → s'.chars.length ≤ s.chars.length := by
  constructor
  · intro h
    obtain ⟨hpre, hall⟩ := longest_of_find? pairwise_longestFirst h
    exact ⟨hpre, fun s' => hall s' (mem_longestFirst s')⟩
  · intro h
    obtain ⟨hpre, hall⟩ := h
    have hsome : (read? cs).isSome = true :=
      List.find?_isSome.mpr ⟨s, mem_longestFirst s, List.isPrefixOf_iff_prefix.mpr hpre⟩
    obtain ⟨s', hs'⟩ := Option.isSome_iff_exists.mp hsome
    obtain ⟨hpre', hall'⟩ := longest_of_find? pairwise_longestFirst hs'
    have hlen := Nat.le_antisymm (hall s' hpre') (hall' s (mem_longestFirst s) hpre)
    rw [hs', eq_of_fits hpre' hpre hlen]

theorem mem_candidates_of_fits (h : s.chars <+: c :: r) : s ∈ candidates c := by
  obtain ⟨d, t, ht⟩ := List.exists_cons_of_ne_nil (chars_ne_nil s)
  rw [ht] at h
  rw [mem_candidates, ht, (List.cons_prefix_cons.mp h).1]
  rfl

/-- One of the candidates always fits. -/
theorem find?_candidates (h : candidates c ≠ []) (r : List Char) :
    ∃ s, (candidates c).find? (·.chars.isPrefixOf (c :: r)) = some s := by
  obtain ⟨s, hs, hchars⟩ := exists_single h
  have hpre : s.chars <+: c :: r := by
    rw [hchars]
    exact List.prefix_append [c] r
  exact Option.isSome_iff_exists.mp
    (List.find?_isSome.mpr ⟨s, hs, List.isPrefixOf_iff_prefix.mpr hpre⟩)

/-- Reading a symbol tries the candidates of its first character in turn. -/
theorem read?_cons (c : Char) (r : List Char) :
    read? (c :: r) = (candidates c).find? (·.chars.isPrefixOf (c :: r)) := by
  cases hfind : (candidates c).find? (·.chars.isPrefixOf (c :: r)) with
  | some s =>
    obtain ⟨hpre, hall⟩ := longest_of_find? (pairwise_candidates c) hfind
    exact read?_eq_some_iff.mpr
      ⟨hpre, fun s' hs' => hall s' (mem_candidates_of_fits hs') hs'⟩
  | none =>
    refine List.find?_eq_none.mpr fun s _ hs => ?_
    have hmem := mem_candidates_of_fits (List.isPrefixOf_iff_prefix.mp hs)
    exact List.find?_eq_none.mp hfind s hmem hs

end Symbol

namespace Piece

variable {c : Char} {r t u : List Char} {kind kind' : Kind} {s : Symbol}

theorem read?_of_first (h : first c r = .ok (written (.symbol s) t)) :
    Symbol.read? (c :: r) = some s := by
  generalize hp : written (.symbol s) t = p at h
  cases begins_of_first h with
  | symbol hread =>
    cases hp
    exact hread
  | word text =>
    injection hp with hkind
    unfold Kind.ofWord at hkind
    split at hkind <;> cases hkind
  | _ => cases hp

theorem read?_of_unexpectedChar {d : Char} (h : first c r = .error (.unexpectedChar d)) :
    d = c ∧ Symbol.read? (c :: r) = none := by
  unfold first quoted at h
  repeat' split at h
  all_goals cases h
  exact ⟨rfl, ‹_›⟩

/-- What is written the same is the same token, whatever stands behind. -/
theorem kind_of_text {d : Char} {v : List Char} (h : first c r = .ok (written kind t))
    (h' : first d v = .ok (written kind' t)) : kind = kind' := by
  obtain ⟨x, hx, y, rfl⟩ := text_of_first h
  obtain ⟨x', hx', y', rfl⟩ := text_of_first h'
  obtain ⟨rfl, rfl⟩ := List.cons.inj (hx.symm.trans hx')
  have halone := first_truncated h hx (List.prefix_refl x)
  have halone' := first_truncated h' hx' (List.prefix_refl x)
  have heq := halone.symm.trans halone'
  injection heq with heq
  injection heq

end Piece

namespace Kind

/-- The operator or delimiter that the token is; an inserted semicolon is one, too. -/
def symbol? : Kind → Option Symbol
  | symbol s => some s
  | newline => some .semicolon
  | _ => none

theorem eq_symbol {kind : Kind} {s : Symbol} (h : kind.symbol? = some s)
    (hw : kind.isWritten = true) : kind = symbol s := by
  cases kind with
  | symbol s' =>
    cases h
    rfl
  | newline => cases hw
  | _ => cases h

theorem isWritten_of_spelling {kind : Kind} (h : kind.spelling ≠ "") : kind.isWritten = true := by
  cases kind with
  | newline | eof => exact absurd rfl h
  | _ => rfl

end Kind

/-- Behind the end of a line stands none of the longer symbols. -/
theorem EndsLine.length_le_one {y : List Char} (h : EndsLine y) {s : Symbol}
    (hs : s.chars <+: y) : s.chars.length ≤ 1 := by
  rcases h with rfl | ⟨r, rfl⟩ | ⟨t, r, rfl, ⟨body, rfl, -⟩, -⟩
  · rw [List.prefix_nil.mp hs]
    exact Nat.zero_le 1
  · have hmem := Symbol.mem_candidates_of_fits hs
    cases hmem
  · have hmem := Symbol.mem_candidates_of_fits hs
    have hall : ∀ s ∈ Symbol.candidates '/', s.chars.length ≤ 1 ∨ s.chars = ['/', '='] := by
      decide
    refine (hall s hmem).resolve_right fun hchars => ?_
    rw [hchars] at hs
    have hstar := (List.cons_prefix_cons.mp (List.cons_prefix_cons.mp hs).2).1
    exact absurd hstar (by decide)

namespace Token

open Position

/-- What the source is from the start of a token on. -/
inductive StandsAt : Kind → List Char → Prop
  | eof : StandsAt .eof []
  | newline {y : List Char} (stop : EndsLine y) : StandsAt .newline y
  | written {kind : Kind} {c : Char} {r text : List Char}
      (front : Piece.first c r = .ok (.written kind text)) : StandsAt kind (c :: r)

/-- The token starts where the source is cut into `x` and `y`. -/
structure CutsAt (x y : List Char) (t : Token) : Prop where
  start : t.span.start = String.utf8Len x
  stands : StandsAt t.kind y

theorem cutsAt_inserted {x y : List Char} (stop : EndsLine y) (ends : Bool) :
    ∀ t ∈ inserted ends (after {} x), CutsAt x y t := by
  intro t ht
  unfold inserted at ht
  split at ht
  · rw [List.mem_singleton.mp ht]
    exact ⟨start_at x, .newline stop⟩
  · cases ht

theorem cutsAt_place {ps : List Piece} (h : Piece.Fronts [] ps) (before : List Char)
    (ends : Bool) : ∀ t ∈ place (after {} before) ends ps,
      ∃ x y, ps.flatMap Piece.text = x ++ y ∧ CutsAt (before ++ x) y t := by
  induction ps generalizing before ends with
  | nil =>
    intro t ht
    refine ⟨[], [], rfl, ?_⟩
    rw [List.append_nil]
    rcases List.mem_append.mp ht with ht | ht
    · exact cutsAt_inserted (.inl rfl) ends t ht
    · rw [List.mem_singleton.mp ht]
      exact ⟨start_at before, .eof⟩
  | cons p ps ih =>
    obtain ⟨⟨c, r, hp, hf⟩, hrest⟩ := h
    rw [List.append_nil] at hf
    have hsource : (p :: ps).flatMap Piece.text = p.text ++ ps.flatMap Piece.text :=
      List.flatMap_cons
    -- a token further behind, and a semicolon in front of the piece
    have hbehind : ∀ ends, ∀ t ∈ place ((after {} before).after p.text) ends ps,
        ∃ x y, (p :: ps).flatMap Piece.text = x ++ y ∧ CutsAt (before ++ x) y t := by
      intro ends t ht
      rw [← after_append] at ht
      obtain ⟨x, y, hcut, hat⟩ := ih hrest (before ++ p.text) ends t ht
      refine ⟨p.text ++ x, y, ?_, ?_⟩
      · rw [hsource, hcut, List.append_assoc]
      · rwa [← List.append_assoc]
    have hfront : EndsLine (p.text ++ ps.flatMap Piece.text) →
        ∀ t ∈ inserted ends (after {} before),
          ∃ x y, (p :: ps).flatMap Piece.text = x ++ y ∧ CutsAt (before ++ x) y t := by
      intro hstop t ht
      refine ⟨[], _, hsource, ?_⟩
      rw [List.append_nil]
      exact cutsAt_inserted hstop ends t ht
    intro t ht
    cases p with
    | newline =>
      rcases List.mem_append.mp ht with ht | ht
      · exact hfront (Piece.endsLine_of_first hf rfl (.head _)) t ht
      · exact hbehind false t ht
    | blank d => exact hbehind ends t ht
    | lineComment text => exact hbehind ends t ht
    | blockComment text =>
      rw [place] at ht
      split at ht
      · rename_i hn
        rcases List.mem_append.mp ht with ht | ht
        · exact hfront (Piece.endsLine_of_first hf rfl hn) t ht
        · exact hbehind false t ht
      · exact hbehind ends t ht
    | written kind text =>
      rcases List.mem_cons.mp ht with rfl | ht
      · refine ⟨[], c :: (r ++ ps.flatMap Piece.text), ?_, ?_, .written hf⟩
        · rw [hsource, hp]
          rfl
        · rw [List.append_nil, start_reading]
      · exact hbehind kind.endsStatement t ht

theorem cutsAt_of_mem {source : String} {ts : List Token} (h : ofSource source = .ok ts) :
    ∀ t ∈ ts, ∃ x y, source.toList = x ++ y ∧ CutsAt x y t := by
  obtain ⟨ps, hcut, rfl⟩ := ofSource_eq_ok.mp h
  obtain ⟨hfronts, htext⟩ := Piece.fronts_of_cut hcut
  have hplace := cutsAt_place hfronts [] false
  rwa [htext] at hplace

/-- The operator or delimiter `s` stands at the start of the token, and none with a longer spelling
does.  An inserted semicolon has no text of its own there. -/
def IsLongest (source : String) (t : Token) (s : Symbol) : Prop :=
  ∃ x y : String, source = x ++ y ∧ t.span.start = x.utf8ByteSize ∧
    (t.kind.isWritten = true → s.chars <+: y.toList) ∧
    ∀ s' : Symbol, s'.chars <+: y.toList → s'.chars.length ≤ s.chars.length

theorem StandsAt.longest {kind : Kind} {y : List Char} (h : StandsAt kind y) {s : Symbol}
    (hs : kind.symbol? = some s) : (kind.isWritten = true → s.chars <+: y) ∧
      ∀ s' : Symbol, s'.chars <+: y → s'.chars.length ≤ s.chars.length := by
  cases h with
  | eof => cases hs
  | newline stop =>
    cases hs
    exact ⟨fun hw => absurd hw Bool.false_ne_true, fun s' => stop.length_le_one⟩
  | written front =>
    obtain ⟨-, hwritten⟩ := Piece.spelling_of_first front
    obtain rfl := Kind.eq_symbol hs hwritten
    obtain ⟨hpre, hall⟩ := Symbol.read?_eq_some_iff.mp (Piece.read?_of_first front)
    exact ⟨fun _ => hpre, hall⟩

theorem isLongest_of_mem {source : String} {ts : List Token} (h : ofSource source = .ok ts)
    {t : Token} (ht : t ∈ ts) {s : Symbol} (hs : t.kind.symbol? = some s) :
    IsLongest source t s := by
  obtain ⟨x, y, hsource, hstart, hstands⟩ := cutsAt_of_mem h t ht
  refine ⟨String.ofList x, String.ofList y, ?_, ?_, ?_⟩
  · rw [← String.ofList_append, ← hsource, String.ofList_toList]
  · rw [hstart, String.utf8ByteSize_ofList]
  · rw [String.toList_ofList]
    exact hstands.longest hs

theorem exists_first_of_mem {source : String} {ts : List Token} (h : ofSource source = .ok ts)
    {t : Token} (ht : t ∈ ts) (hw : t.kind.isWritten = true) :
    ∃ c r, Piece.first c r = .ok (.written t.kind t.kind.spelling.toList) := by
  obtain ⟨x, y, -, -, hstands⟩ := cutsAt_of_mem h t ht
  generalize t.kind = kind at hstands hw
  cases hstands with
  | eof => cases hw
  | newline => cases hw
  | written front =>
    obtain ⟨hspelled, -⟩ := Piece.spelling_of_first front
    rw [hspelled, String.toList_ofList]
    exact ⟨_, _, front⟩

/-- In any two sources, tokens that are written the same are of the same kind. -/
theorem kind_of_spelling {source source' : String} {ts us : List Token}
    (h : ofSource source = .ok ts) (h' : ofSource source' = .ok us) {t u : Token} (ht : t ∈ ts)
    (hu : u ∈ us) (hw : t.kind.isWritten = true) (heq : t.kind.spelling = u.kind.spelling) :
    t.kind = u.kind := by
  obtain ⟨c, r, hf⟩ := exists_first_of_mem h ht hw
  have hne : t.kind.spelling ≠ "" := fun hempty =>
    Piece.text_ne_nil_of_first hf (String.toList_eq_nil_iff.mpr hempty)
  have hwu : u.kind.isWritten = true := Kind.isWritten_of_spelling (heq ▸ hne)
  obtain ⟨d, v, hf'⟩ := exists_first_of_mem h' hu hwu
  rw [heq] at hf
  exact Piece.kind_of_text hf hf'

/-- Every operator and delimiter of a source has the longest spelling that stands at its start, and
its spelling is not that of another token in any source.  Wherever the source is cut, the candidates
of a character include one that fits, so a character is unexpected only if it has none. -/
theorem longest_ofSource (source : String) :
    (∀ ts, ofSource source = .ok ts → ∀ t ∈ ts, ∀ s, t.kind.symbol? = some s →
      IsLongest source t s ∧
      (t.kind.isWritten = true → ∀ source' us u, ofSource source' = .ok us → u ∈ us →
        u.kind.spelling = t.kind.spelling → u.kind = .symbol s)) ∧
    (∀ x c r, source.toList = x ++ c :: r → Symbol.candidates c ≠ [] →
      ∃ s, (Symbol.candidates c).find? (·.chars.isPrefixOf (c :: r)) = some s ∧
        Symbol.read? (c :: r) = some s) ∧
    ∀ e c, ofSource source = .error e → e.fault = .unexpectedChar c →
      Symbol.candidates c = [] := by
  refine ⟨fun ts h t ht s hs => ⟨isLongest_of_mem h ht hs, fun hw source' us u h' hu heq => ?_⟩,
    fun x c r _ hc => ?_, fun e c he hfault => ?_⟩
  · rw [← kind_of_spelling h h' ht hu hw heq.symm]
    exact Kind.eq_symbol hs hw
  · obtain ⟨s, hs⟩ := Symbol.find?_candidates hc r
    exact ⟨s, hs, (Symbol.read?_cons c r).trans hs⟩
  · by_contra hc
    obtain ⟨ps, hcut, -⟩ := ofSource_eq_error.mp he
    obtain ⟨d, r, -, -, hfirst⟩ := Piece.cut_eq_error.mp hcut
    rw [hfault] at hfirst
    obtain ⟨rfl, hnone⟩ := Piece.read?_of_unexpectedChar hfirst
    obtain ⟨s, hs⟩ := Symbol.find?_candidates hc r
    rw [Symbol.read?_cons, hs] at hnone
    cases hnone

theorem longest_andNot :
    let source := "x &^= y << 2 <- ch /* ∞\n*/"
    let ts : List Token := [⟨.name "x", 0, 1, 1, 1⟩, ⟨.symbol (.compound .andNot), 2, 5, 1, 3⟩,
      ⟨.name "y", 6, 7, 1, 7⟩, ⟨.symbol (.binary (.arith .shl)), 8, 10, 1, 9⟩,
      ⟨.literal .int "2", 11, 12, 1, 12⟩, ⟨.symbol .arrow, 13, 15, 1, 14⟩,
      ⟨.name "ch", 16, 18, 1, 17⟩, ⟨.newline, 19, 19, 1, 20⟩, ⟨.eof, 28, 28, 2, 3⟩]
    ofSource source = .ok ts ∧ ∀ t ∈ ts, ∀ s, t.kind.symbol? = some s → IsLongest source t s := by
  intro source ts
  have htokens : ofSource source = .ok ts := by decide +kernel
  exact ⟨htokens, fun t ht s hs => ((longest_ofSource source).1 ts htokens t ht s hs).1⟩

end Token

end GoRepl
