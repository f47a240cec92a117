import GoRepl.Proofs.Token.Boundary

/-! # Pieces within a line

Numbers, words, symbols and quoted literals end before their line does.  So they are the same
whatever follows the line, and they stand at its front.

* `LineEnd`: the end of a line, with what follows it.
* `Piece.throughQuote_lineEnd`: a quoted literal does not depend on what follows the line.
* `Piece.first_append`: so the first piece does not, unless it is a comment or a raw string.
* `Piece.first_front`: the first piece stands at the front of the source.
-/

namespace GoRepl

/-- The end of a line or of the source, with what follows it. -/
inductive LineEnd : List Char → Prop
  | finish : LineEnd []
  | feed (r : List Char) : LineEnd ('\n' :: r)
  | returned (r : List Char) : LineEnd ('\r' :: '\n' :: r)

theorem LineEnd.boundary {y : List Char} (hy : LineEnd y) : Boundary y := by
  cases hy with
  | finish => exact .finish
  | feed r => exact .inert rfl r
  | returned r => exact .inert rfl _

namespace Piece

variable {x y : List Char}

section Quoted

variable {q c e : Char} {r : List Char}

theorem throughQuote_feed : throughQuote q ('\n' :: r) = none := by
  rw [throughQuote.eq_def]
  rfl

theorem throughQuote_escape (he : e ≠ '\n') : throughQuote q ('\\' :: e :: r) =
    (throughQuote q r).map fun t => '\\' :: e :: t := by
  rw [throughQuote.eq_def]
  exact if_neg he

theorem throughQuote_end (hn : q ≠ '\n') (hb : q ≠ '\\') : throughQuote q (q :: r) = some [q] := by
  rw [throughQuote.eq_def]
  exact (if_neg hn).trans ((if_neg hb).trans (if_pos rfl))

theorem throughQuote_cons (hn : c ≠ '\n') (hb : c ≠ '\\') (hq : c ≠ q) :
    throughQuote q (c :: r) = (throughQuote q r).map (c :: ·) := by
  rw [throughQuote.eq_def]
  exact (if_neg hn).trans ((if_neg hb).trans (if_neg hq))

/-- Nothing is read beyond a text in which the literal cannot end. -/
theorem throughQuote_append (hnone : throughQuote q y = none)
    (hescape : throughQuote q ('\\' :: y) = none) :
    throughQuote q (x ++ y) = throughQuote q x := by
  induction x using throughQuote.induct q with
  | case1 => rw [List.nil_append, hnone, throughQuote]
  | case2 r => rw [List.cons_append, throughQuote_feed, throughQuote_feed]
  | case3 => exact hescape
  | case4 r => rw [throughQuote.eq_def, throughQuote.eq_def _ ('\\' :: _)]; rfl
  | case5 e r he hb ih =>
    rw [List.cons_append, List.cons_append, throughQuote_escape he, throughQuote_escape he, ih]
  | case6 r hn hb => rw [List.cons_append, throughQuote_end hn hb, throughQuote_end hn hb]
  | case7 c r hn hb hne ih =>
    rw [List.cons_append, throughQuote_cons hn hb hne, throughQuote_cons hn hb hne, ih]

theorem throughQuote_lineEnd (hy : LineEnd y) (hq : q ≠ '\r') :
    throughQuote q (x ++ y) = throughQuote q x := by
  cases hy with
  | finish => rw [List.append_nil]
  | feed r =>
    refine throughQuote_append throughQuote_feed ?_
    rw [throughQuote.eq_def]
    rfl
  | returned r =>
    refine throughQuote_append ?_ ?_
    · rw [throughQuote_cons (by decide) (by decide) hq.symm, throughQuote_feed]
      rfl
    · rw [throughQuote_escape (by decide), throughQuote_feed]
      rfl

/-- A quoted text stands at the front of the source and has no line feed. -/
theorem throughQuote_front {t : List Char} (h : throughQuote q r = some t) :
    t <+: r ∧ '\n' ∉ t ∧ t.getLast? = some q := by
  induction r using throughQuote.induct q generalizing t with
  | case1 | case3 =>
    rw [throughQuote.eq_def] at h
    cases h
  | case2 r =>
    rw [throughQuote_feed] at h
    cases h
  | case4 r =>
    rw [throughQuote.eq_def] at h
    cases h
  | case5 e r he hb ih =>
    rw [throughQuote_escape he] at h
    obtain ⟨t', ht, rfl⟩ := Option.map_eq_some_iff.mp h
    obtain ⟨hpre, hn, hlast⟩ := ih ht
    refine ⟨List.cons_prefix_cons.mpr ⟨rfl, List.cons_prefix_cons.mpr ⟨rfl, hpre⟩⟩, ?_, ?_⟩
    · simpa [Ne.symm he] using hn
    · rw [List.getLast?_cons, List.getLast?_cons, hlast]
      rfl
  | case6 r hn hb =>
    rw [throughQuote_end hn hb] at h
    cases h
    refine ⟨List.cons_prefix_cons.mpr ⟨rfl, List.nil_prefix⟩, ?_, rfl⟩
    simpa using Ne.symm hn
  | case7 c r hn hb hne ih =>
    rw [throughQuote_cons hn hb hne] at h
    obtain ⟨t', ht, rfl⟩ := Option.map_eq_some_iff.mp h
    obtain ⟨hpre, hn', hlast⟩ := ih ht
    refine ⟨List.cons_prefix_cons.mpr ⟨rfl, hpre⟩, ?_, ?_⟩
    · simpa [Ne.symm hn] using hn'
    · rw [List.getLast?_cons, hlast]
      rfl

end Quoted

theorem throughBackQuote_cons {c : Char} {r : List Char} (hc : c ≠ '\x60') :
    throughBackQuote (c :: r) = (throughBackQuote r).map (c :: ·) := by
  rw [throughBackQuote, if_neg hc]

theorem throughBackQuote_front {r t : List Char} (h : throughBackQuote r = some t) :
    t <+: r ∧ t.getLast? = some '\x60' := by
  induction r generalizing t with
  | nil => cases h
  | cons c r ih =>
    by_cases hc : c = '\x60'
    · rw [hc, throughBackQuote, if_pos rfl] at h
      cases h
      exact ⟨List.cons_prefix_cons.mpr ⟨hc.symm, List.nil_prefix⟩, rfl⟩
    · rw [throughBackQuote_cons hc] at h
      obtain ⟨t', ht, rfl⟩ := Option.map_eq_some_iff.mp h
      obtain ⟨hpre, hlast⟩ := ih ht
      refine ⟨List.cons_prefix_cons.mpr ⟨rfl, hpre⟩, ?_⟩
      rw [List.getLast?_cons, hlast]
      rfl

theorem throughCommentEnd_cons {c : Char} {r : List Char} (hc : c = '*' → r.head? ≠ some '/') :
    throughCommentEnd (c :: r) = (throughCommentEnd r).map (c :: ·) := by
  refine throughCommentEnd.eq_2 c r fun s h hr => hc h ?_
  rw [hr]
  rfl

theorem throughCommentEnd_front {r t : List Char} (h : throughCommentEnd r = some t) :
    t <+: r ∧ t.getLast? = some '/' := by
  induction r using throughCommentEnd.induct generalizing t with
  | case1 r =>
    rw [throughCommentEnd] at h
    cases h
    exact ⟨⟨r, rfl⟩, rfl⟩
  | case2 c r hc ih =>
    rw [throughCommentEnd.eq_2 c r hc] at h
    obtain ⟨t', ht, rfl⟩ := Option.map_eq_some_iff.mp h
    obtain ⟨hpre, hlast⟩ := ih ht
    refine ⟨List.cons_prefix_cons.mpr ⟨rfl, hpre⟩, ?_⟩
    rw [List.getLast?_cons, hlast]
    rfl
  | case3 =>
    rw [throughCommentEnd] at h
    cases h

theorem first_front {c : Char} {r : List Char} {p : Piece} (h : first c r = .ok p) :
    p.text <+: c :: r := by
  have hcons : ∀ {t : List Char}, t <+: r → c :: t <+: c :: r := fun ht =>
    List.cons_prefix_cons.mpr ⟨rfl, ht⟩
  cases begins_of_first h with
  | newline | blank => exact hcons List.nil_prefix
  | lineComment => exact hcons (List.takeWhile_prefix _)
  | blockComment mark close =>
    cases r with
    | nil => cases mark
    | cons d r =>
      cases mark
      exact hcons (List.cons_prefix_cons.mpr ⟨rfl, (throughCommentEnd_front close).1⟩)
  | quoted cls q close => exact hcons (throughQuote_front close).1
  | raw close => exact hcons (throughBackQuote_front close).1
  | number text => exact Number.read_front text
  | word text => exact text ▸ hcons (List.takeWhile_prefix _)
  | symbol spelling => exact Symbol.read?_front spelling

theorem startsNumber_append (hy : Boundary y) (c : Char) :
    startsNumber c (x ++ y) = startsNumber c x := by
  rw [startsNumber, startsNumber, Number.startsWithDigit_append hy]

/-- Apart from comments and raw strings, the first piece of a line does not depend on what follows
the line. -/
theorem first_append {c : Char} (hy : LineEnd y) (hline : ¬(c = '/' ∧ x.head? = some '/'))
    (hblock : ¬(c = '/' ∧ x.head? = some '*')) (hraw : c ≠ '\x60') :
    first c (x ++ y) = first c x := by
  by_cases hc : c = '\r'
  · rw [hc]
    rfl
  have hb := hy.boundary
  have hline' : ¬(c = '/' ∧ (x ++ y).head? = some '/') := by
    rwa [hb.head?_append (by decide)]
  have hblock' : ¬(c = '/' ∧ (x ++ y).head? = some '*') := by
    rwa [hb.head?_append (by decide)]
  unfold first
  rw [if_neg hline', if_neg hblock', if_neg hraw, if_neg hline, if_neg hblock, if_neg hraw,
    throughQuote_lineEnd hy hc, startsNumber_append hb, ← List.cons_append, Number.read_append hb,
    hb.takeWhile_append (by decide +kernel), List.cons_append, Symbol.read?_append hb]

end Piece

end GoRepl
