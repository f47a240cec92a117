import GoRepl.Proofs.Fragment.Faults
import GoRepl.Proofs.Fragment.Nesting
import GoRepl.Proofs.Syntax.Advance
import GoRepl.Proofs.Token.Tiling
import GoRepl.Proofs.Token.Truncation

/-! # Where errors are reported

A fault of the tokens is reported where the construct at fault starts, and what stands before that
place has no fault.  Every other error is reported at a token of the source.  So the line and the
column of an error are those of a place in the source, or of its end.

* `Number.read_error_front`: what is told of a malformed number is what the source begins with.
* `LexFault.OpensAt`, `Piece.opensAt_of_first_error`: what a source begins with at a fault.
* `CutAt`: the line and the column of a place in a source.
* `Token.ofSource_error_place`: the place of a fault of the tokens.
* `Syntax.RejectedWith`: the errors of the three entry points.
* `Syntax.error_places`: the places of all errors.
-/

namespace GoRepl

/-! ## Malformed numbers -/

theorem append_prefix_of_drop {α : Type} {a t cs : List α} (ha : a <+: cs)
    (ht : t <+: cs.drop a.length) : a ++ t <+: cs := by
  obtain ⟨z, rfl⟩ := ha
  rw [List.drop_left] at ht
  exact (List.prefix_append_right_inj a).mpr ht

namespace Number

variable {b : Base} {f : Bool} {cs t : List Char}

theorem extend_eq_error {m : Except (List Char) (List Char × Bool)} :
    mantissa.extend cs m = .error t ↔ ∃ t', m = .error t' ∧ t = cs ++ t' := by
  cases m with
  | error e => simp [mantissa.extend, eq_comm]
  | ok p => simp [mantissa.extend]

theorem mantissa_error_front (h : mantissa b f cs = .error t) : t ≠ [] ∧ t <+: cs := by
  have hcons {c : Char} {r t : List Char} (ht : t <+: r) : c :: t ≠ [] ∧ c :: t <+: c :: r :=
    ⟨List.cons_ne_nil c t, List.cons_prefix_cons.mpr ⟨rfl, ht⟩⟩
  induction f, cs using mantissa.induct b generalizing t with
  | case1 =>
    rw [mantissa] at h
    cases h
  | case2 f c r hd ih =>
    rw [mantissa_digit hd] at h
    obtain ⟨t', ht', rfl⟩ := extend_eq_error.mp h
    exact hcons (ih ht').2
  | case3 f c r hd hp ih =>
    rw [mantissa_point hd hp] at h
    obtain ⟨t', ht', rfl⟩ := extend_eq_error.mp h
    exact hcons (ih ht').2
  | case4 f c hd hp hm =>
    rw [mantissa_mark hd hp hm] at h
    cases h
    exact hcons List.nil_prefix
  | case5 f c hd hp hm s r hs hstart ih =>
    rw [mantissa_mark hd hp hm] at h
    simp only [if_pos hs, if_pos hstart] at h
    obtain ⟨t', ht', rfl⟩ := extend_eq_error.mp h
    exact hcons (hcons (ih ht').2).2
  | case6 f c hd hp hm s r hs hstart =>
    rw [mantissa_mark hd hp hm] at h
    simp only [if_pos hs, if_neg hstart] at h
    cases h
    exact hcons (hcons List.nil_prefix).2
  | case7 f c hd hp hm s r hs hdigit ih =>
    rw [mantissa_mark hd hp hm] at h
    simp only [if_neg hs, if_pos hdigit] at h
    obtain ⟨t', ht', rfl⟩ := extend_eq_error.mp h
    exact hcons (ih ht').2
  | case8 f c hd hp hm s r hs hdigit =>
    rw [mantissa_mark hd hp hm] at h
    simp only [if_neg hs, if_neg hdigit] at h
    cases h
    exact hcons List.nil_prefix
  | case9 f c r hd hp hm =>
    rw [mantissa_stop hd hp hm] at h
    cases h

theorem digits_error_front (h : digits cs = .error t) : t ≠ [] ∧ t <+: cs := by
  obtain ⟨t', ht', rfl⟩ := extend_eq_error.mp h
  obtain ⟨hne, hpre⟩ := mantissa_error_front ht'
  exact ⟨List.append_ne_nil_of_right_ne_nil _ hne, append_prefix_of_drop (baseMark_front cs) hpre⟩

/-- What is judged not to be a number is more than its digits, and stands in the source. -/
theorem judge_error_front {bare : Bool} {ds rest : List Char}
    (h : judge bare ds f rest = .error t) : ds <+: t ∧ t <+: ds ++ rest := by
  unfold judge at h
  dsimp only at h
  split at h
  · cases h
    exact ⟨List.prefix_refl _, List.prefix_append _ _⟩
  split at h
  · cases h
    exact ⟨List.prefix_refl _, List.prefix_append _ _⟩
  split at h
  · cases h
    rw [List.append_assoc]
    refine ⟨List.prefix_append _ _, (List.prefix_append_right_inj ds).mpr ?_⟩
    exact append_prefix_of_drop (suffix_front rest) (List.takeWhile_prefix _)
  · cases h

/-- The text that is told of a malformed number is what the source begins with. -/
theorem read_error_front {c : Char} {r : List Char} (hc : Piece.startsNumber c r = true)
    (h : read (c :: r) = .error t) : t ≠ [] ∧ t <+: c :: r := by
  rw [read_eq] at h
  cases hd : digits (c :: r) with
  | error e =>
    rw [hd] at h
    cases h
    exact digits_error_front hd
  | ok p =>
    obtain ⟨ds, f⟩ := p
    rw [hd] at h
    obtain ⟨hds, ht⟩ := judge_error_front h
    rw [List.prefix_iff_eq_append.mp (digits_front hd)] at ht
    refine ⟨?_, ht⟩
    rintro rfl
    exact digits_ne_nil hc hd (List.prefix_nil.mp hds)

end Number

/-! ## Faults of the tokens -/

/-- The text begins with the construct that the fault is about. -/
inductive LexFault.OpensAt : LexFault → List Char → Prop
  | unexpectedChar (c : Char) (r : List Char) : OpensAt (.unexpectedChar c) (c :: r)
  | unterminatedString (r : List Char) : OpensAt .unterminatedString ('"' :: r)
  | unterminatedRawString (r : List Char) : OpensAt .unterminatedRawString ('\x60' :: r)
  | unterminatedRune (r : List Char) : OpensAt .unterminatedRune ('\'' :: r)
  | unterminatedComment (r : List Char) : OpensAt .unterminatedComment ('/' :: '*' :: r)
  | invalidNumber {c : Char} {r t : List Char} (starts : Piece.startsNumber c r = true)
      (nonempty : t ≠ []) (front : t <+: c :: r) :
      OpensAt (.invalidNumber (String.ofList t)) (c :: r)

theorem Piece.opensAt_of_first_error {c : Char} {r : List Char} {e : LexFault}
    (h : first c r = .error e) : e.OpensAt (c :: r) := by
  have hquoted {cls : LiteralClass} {close? : Option (List Char)} {fault : LexFault}
      (hq : quoted cls c close? fault = .error e) : e = fault := by
    cases close? with
    | none =>
      cases hq
      rfl
    | some t => cases hq
  unfold first at h
  split at h
  · cases h
  split at h
  · cases h
  split at h
  · cases h
  split at h
  · rename_i hblock
    obtain ⟨rfl, hhead⟩ := hblock
    obtain ⟨z, rfl⟩ := List.head?_eq_some_iff.mp hhead
    split at h
    · cases h
    · cases h
      exact .unterminatedComment z
  split at h
  · rename_i hc
    subst hc
    exact hquoted h ▸ .unterminatedString r
  split at h
  · rename_i hc
    subst hc
    exact hquoted h ▸ .unterminatedRune r
  split at h
  · rename_i hc
    subst hc
    exact hquoted h ▸ .unterminatedRawString r
  split at h
  · rename_i hnumber
    split at h
    · cases h
    · rename_i t ht
      cases h
      obtain ⟨hne, hfront⟩ := Number.read_error_front hnumber ht
      exact .invalidNumber hnumber hne hfront
  split at h
  · cases h
  split at h
  · cases h
  · cases h
    exact .unexpectedChar c r

/-- The source is `x` and then `y`, and `y` starts in this line and column: one more than the line
feeds in `x`, and than the characters since the last of them. -/
structure CutAt (source x y : String) (line col : Nat) : Prop where
  cut : source = x ++ y
  line_eq : line = 1 + x.toList.count '\n'
  col_eq : col = 1 + (x.toList.rtakeWhile (· ≠ '\n')).length

namespace Token

variable {source : String}

/-- A fault of the tokens is where the construct at fault starts, and what stands before has no
fault. -/
theorem ofSource_error_place {e : LexError} (h : ofSource source = .error e) :
    ∃ x y, CutAt source x y e.line e.col ∧ (∃ ts, ofSource x = .ok ts) ∧
      e.fault.OpensAt y.toList := by
  obtain ⟨ps, hcut, hline, hcol⟩ := ofSource_eq_error.mp h
  obtain ⟨c, r, hsource, hfronts, hfault⟩ := Piece.cut_eq_error.mp hcut
  refine ⟨String.ofList (ps.flatMap Piece.text), String.ofList (c :: r), ⟨?_, ?_, ?_⟩,
    ⟨place {} false ps, ofSource_eq_ok.mpr ⟨ps, ?_, rfl⟩⟩, ?_⟩
  · rw [← String.ofList_append, ← hsource, String.ofList_toList]
  · rw [hline, Position.line_after, String.toList_ofList]
  · rw [hcol, Position.col_after, String.toList_ofList]
  · -- the pieces before the fault stay the same if the source ends where the fault is
    have hbefore := Piece.cut_fronts (Piece.fronts_nil hfronts)
    rw [List.append_nil, Piece.cut, Piece.behind, List.append_nil] at hbefore
    rw [String.toList_ofList, hbefore]
  · rw [String.toList_ofList]
    exact Piece.opensAt_of_first_error hfault

theorem IsPlaced.cutAt {t : Token} (h : IsPlaced source t) :
    ∃ x y, CutAt source x (t.kind.spelling ++ y) t.span.line t.span.col := by
  obtain ⟨x, z, hsource, -, -, hline, hcol⟩ := h
  exact ⟨x, z, by rw [hsource, String.append_assoc], hline, hcol⟩

end Token

/-! ## Errors at tokens -/

namespace Syntax

variable {source : String} {ts : List Token}

/-- A stream of a source ends where the end mark of the source is. -/
theorem TokenStream.exists_finish (hts : Token.ofSource source = .ok ts) :
    ∃ t, ts = (ofTokens ts).tokens ++ [t] ∧ t.kind = .eof ∧ (ofTokens ts).finish = t.span := by
  obtain ⟨t, htokens, ht⟩ := exists_of_source hts
  have hfind : ts.find? (·.kind = .eof) = some t := by
    rw [htokens, List.find?_append, List.find?_eq_none.mpr, Option.none_or, List.find?_singleton,
      if_pos (by simpa using ht)]
    intro z hz
    simpa using ne_eof_of_ofTokens hz
  refine ⟨t, htokens, ht, ?_⟩
  rw [ofTokens, hfind]

/-- A fault found at an end of the stream of a source is reported at a token of the source. -/
theorem TokenStream.error_mem (hts : Token.ofSource source = .ok ts) {f : ReadFault}
    (hf : f.rest <:+ (ofTokens ts).tokens) : ∃ t ∈ ts, ((ofTokens ts).error f).found = t.kind ∧
      ((ofTokens ts).error f).line = t.span.line ∧ ((ofTokens ts).error f).col = t.span.col := by
  obtain ⟨e, htokens, he, hfinish⟩ := exists_finish hts
  cases hrest : f.rest with
  | nil =>
    -- the reader has reached the end, which the end mark stands for
    refine ⟨e, htokens ▸ List.mem_append_right _ (List.mem_singleton_self e), ?_⟩
    simp only [error, hrest, he, hfinish, and_self]
  | cons t zs =>
    have ht : t ∈ (ofTokens ts).tokens := hf.mem (hrest ▸ List.mem_cons_self)
    refine ⟨t, htokens ▸ List.mem_append_left _ ht, ?_⟩
    simp only [error, hrest, and_self]

theorem ofSource_eq_error {α : Type} {p : TokenStream → Except SyntaxError α}
    (hts : Token.ofSource source = .ok ts) {e : ParseError} (h : ofSource p source = .error e) :
    ∃ f, e = .syntactic f ∧ p (TokenStream.ofTokens ts) = .error f := by
  unfold ofSource at h
  simp only [hts] at h
  cases hp : p (TokenStream.ofTokens ts) with
  | error f =>
    rw [hp] at h
    cases h
    exact ⟨f, rfl, rfl⟩
  | ok a =>
    rw [hp] at h
    cases h

/-- Some entry point rejects the source with this error. -/
def RejectedWith (source : String) (e : ParseError) : Prop :=
  parseFragment source = .error e ∨ parseImports source = .error e ∨
    parseExpression source = .error e

theorem RejectedWith.at_token (hts : Token.ofSource source = .ok ts) {e : ParseError}
    (h : RejectedWith source e) : ∃ f, e = .syntactic f ∧
      ∃ t ∈ ts, f.found = t.kind ∧ f.line = t.span.line ∧ f.col = t.span.col := by
  have hstream : ∃ f g, e = .syntactic f ∧ f = (TokenStream.ofTokens ts).error g ∧
      g.rest <:+ (TokenStream.ofTokens ts).tokens := by
    obtain h | h | h := h
    · obtain ⟨f, rfl, hf⟩ := ofSource_eq_error hts h
      exact ⟨f, (TokenStream.fragment_eq_error hf).imp fun _ hg => ⟨rfl, hg⟩⟩
    · obtain ⟨f, rfl, hf⟩ := ofSource_eq_error hts h
      exact ⟨f, (TokenStream.imports_eq_error hf).imp fun _ hg => ⟨rfl, hg⟩⟩
    · obtain ⟨f, rfl, hf⟩ := ofSource_eq_error hts h
      exact ⟨f, (TokenStream.expression_eq_error hf).imp fun _ hg => ⟨rfl, hg⟩⟩
  obtain ⟨f, g, rfl, rfl, hg⟩ := hstream
  exact ⟨_, rfl, TokenStream.error_mem hts hg⟩

/-- A fault of the tokens is reported where the construct at fault starts, and what stands before
that place has no fault.  If there is none, an entry point that rejects the source reports a token
of it, with the line and the column of that token's place in the source. -/
theorem error_places (source : String) :
    (∀ e, Token.ofSource source = .error e → ∃ x y, CutAt source x y e.line e.col ∧
      (∃ ts, Token.ofSource x = .ok ts) ∧ e.fault.OpensAt y.toList) ∧
    ∀ ts, Token.ofSource source = .ok ts → ∀ e, RejectedWith source e →
      ∃ f, e = .syntactic f ∧ ∃ t ∈ ts,
        f.found = t.kind ∧ f.line = t.span.line ∧ f.col = t.span.col ∧
        ∃ x y, CutAt source x (t.kind.spelling ++ y) f.line f.col := by
  refine ⟨fun e h => Token.ofSource_error_place h, fun ts hts e h => ?_⟩
  obtain ⟨f, rfl, t, ht, hkind, hline, hcol⟩ := h.at_token hts
  refine ⟨f, rfl, t, ht, hkind, hline, hcol, ?_⟩
  rw [hline, hcol]
  exact ((Token.tiling_ofSource hts).placed t ht).cutAt

theorem error_places_number_newline :
    let faulty := "f(\x60a\n\x60, 0x_)"
    let fault : LexError := ⟨.invalidNumber "0x_", 2, 4⟩
    let broken := "f(1 // π\n)"
    let ts : List Token := [⟨.name "f", 0, 1, 1, 1⟩, ⟨.symbol .lparen, 1, 2, 1, 2⟩,
      ⟨.literal .int "1", 2, 3, 1, 3⟩, ⟨.newline, 9, 9, 1, 9⟩, ⟨.symbol .rparen, 10, 11, 2, 1⟩,
      ⟨.newline, 11, 11, 2, 2⟩, ⟨.eof, 11, 11, 2, 2⟩]
    let e : SyntaxError := ⟨.unexpected (.token (.symbol .rparen)), .newline, 1, 9⟩
    Token.ofSource faulty = .error fault ∧
      (∃ x y, CutAt faulty x y 2 4 ∧ (∃ ts, Token.ofSource x = .ok ts) ∧
        fault.fault.OpensAt y.toList) ∧
      Token.ofSource broken = .ok ts ∧ parseFragment broken = .error (.syntactic e) ∧
      ∃ t ∈ ts, e.found = t.kind ∧ e.line = t.span.line ∧ e.col = t.span.col ∧
        ∃ x y, CutAt broken x (t.kind.spelling ++ y) 1 9 := by
  intro faulty fault broken ts e
  have hfault : Token.ofSource faulty = .error fault := by decide +kernel
  have hts : Token.ofSource broken = .ok ts := by decide +kernel
  have hmap : (parseFragment broken).map (fun _ => ()) = .error (.syntactic e) := by
    decide +kernel
  have he : parseFragment broken = .error (.syntactic e) := by
    cases hx : parseFragment broken with
    | ok x =>
      rw [hx] at hmap
      cases hmap
    | error e' =>
      rw [hx] at hmap
      cases hmap
      rfl
  obtain ⟨f, hf, hplace⟩ := (error_places broken).2 ts hts _ (.inl he)
  cases hf
  exact ⟨hfault, (error_places faulty).1 fault hfault, hts, he, hplace⟩

end Syntax

end GoRepl
