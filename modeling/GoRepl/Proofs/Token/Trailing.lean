import GoRepl.Proofs.Token.LineEnd

/-! # What is written behind a source

Blank characters and closing parentheses behind a source leave its pieces as they are, unless the
source ends in a line comment: that goes on to the next line end.

* `Inert`: texts of such characters.
* `Piece.first_inert`: the first piece of a source does not depend on an inert text behind it.
* `Piece.cut_inert`, `Piece.cut_comment`: all pieces of a source with an inert text behind it.
* `Piece.exists_cut_of_inert`: a source can be cut if it can with such a text behind it.
-/

namespace GoRepl

/-- A text of blank characters and closing parentheses. -/
def Inert (y : List Char) : Prop := ∀ c ∈ y, isInert c = true

namespace Inert

variable {y : List Char}

theorem boundary (hy : Inert y) : Boundary y := by
  cases y with
  | nil => exact .finish
  | cons c y => exact .inert (hy c (.head _)) y

theorem not_mem (hy : Inert y) {c : Char} (hc : isInert c = false) : c ∉ y := by
  intro hmem
  rw [hy c hmem] at hc
  cases hc

end Inert

namespace Piece

variable {x y : List Char}

/-! ## The first piece -/

theorem throughQuote_eq_none {q : Char} (h : q ∉ y) : throughQuote q y = none := by
  rw [Option.eq_none_iff_forall_not_mem]
  intro t ht
  obtain ⟨hpre, -, hlast⟩ := throughQuote_front ht
  exact h (hpre.subset (List.mem_of_getLast? hlast))

theorem throughQuote_inert {q : Char} (hb : q ≠ '\\') (hq : q ∉ y) :
    throughQuote q (x ++ y) = throughQuote q x := by
  refine throughQuote_append (throughQuote_eq_none hq) (throughQuote_eq_none ?_)
  exact List.not_mem_cons_of_ne_of_not_mem hb hq

theorem throughBackQuote_inert (hy : '\x60' ∉ y) :
    throughBackQuote (x ++ y) = throughBackQuote x := by
  induction x with
  | nil =>
    rw [List.nil_append, throughBackQuote, Option.eq_none_iff_forall_not_mem]
    intro t ht
    obtain ⟨hpre, hlast⟩ := throughBackQuote_front ht
    exact hy (hpre.subset (List.mem_of_getLast? hlast))
  | cons c x ih => rw [List.cons_append, throughBackQuote, throughBackQuote, ih]

theorem throughCommentEnd_inert (hy : '/' ∉ y) :
    throughCommentEnd (x ++ y) = throughCommentEnd x := by
  have hnone : ∀ {z : List Char}, '/' ∉ z → throughCommentEnd z = none := by
    intro z hz
    rw [Option.eq_none_iff_forall_not_mem]
    intro t ht
    obtain ⟨hpre, hlast⟩ := throughCommentEnd_front ht
    exact hz (hpre.subset (List.mem_of_getLast? hlast))
  induction x using throughCommentEnd.induct with
  | case1 r => rw [List.cons_append, List.cons_append, throughCommentEnd, throughCommentEnd]
  | case2 c r hc ih =>
    have hhead : c = '*' → (r ++ y).head? ≠ some '/' := by
      rintro rfl hslash
      cases r with
      | nil => exact hy (List.mem_of_head? hslash)
      | cons d r =>
        cases hslash
        exact hc r rfl rfl
    have hhead' : c = '*' → r.head? ≠ some '/' := by
      intro hs hslash
      refine hhead hs ?_
      rw [List.head?_append, hslash]
      rfl
    rw [List.cons_append, throughCommentEnd_cons hhead, throughCommentEnd_cons hhead', ih]
  | case3 => rw [List.nil_append, hnone hy, throughCommentEnd]

/-- The first piece, unless it is a line comment, does not depend on an inert text behind the
source. -/
theorem first_inert {c : Char} (hy : Inert y) (hline : ¬(c = '/' ∧ x.head? = some '/')) :
    first c (x ++ y) = first c x := by
  have hb := hy.boundary
  have hline' : ¬(c = '/' ∧ (x ++ y).head? = some '/') := by
    rwa [hb.head?_append (by decide)]
  have hblock : (c = '/' ∧ (x ++ y).head? = some '*') ↔ (c = '/' ∧ x.head? = some '*') := by
    rw [hb.head?_append (by decide)]
  unfold first
  rw [if_neg hline', if_neg hline, startsNumber_append hb, ← List.cons_append,
    Number.read_append hb, hb.takeWhile_append Number.isWordChar_inert, List.cons_append,
    Symbol.read?_append hb, throughBackQuote_inert (hy.not_mem (by decide))]
  by_cases hblock' : c = '/' ∧ x.head? = some '*'
  · obtain ⟨x', rfl⟩ : ∃ x', x = '*' :: x' := by
      cases x with
      | nil => cases hblock'.2
      | cons d x' =>
        cases hblock'.2
        exact ⟨x', rfl⟩
    rw [if_pos hblock', if_pos (hblock.mpr hblock'), List.cons_append, List.tail_cons,
      List.tail_cons, throughCommentEnd_inert (hy.not_mem (by decide))]
  · rw [if_neg hblock', if_neg fun h => hblock' (hblock.mp h)]
    by_cases hstring : c = '"'
    · rw [if_pos hstring, if_pos hstring, hstring,
        throughQuote_inert (by decide) (hy.not_mem (by decide))]
    rw [if_neg hstring, if_neg hstring]
    by_cases hrune : c = '\''
    · rw [if_pos hrune, if_pos hrune, hrune,
        throughQuote_inert (by decide) (hy.not_mem (by decide))]
    rw [if_neg hrune, if_neg hrune]

/-- A line comment is the last piece of a source that has no line end behind the comment. -/
theorem first_inert_cases {c : Char} (hy : Inert y) :
    first c (x ++ y) = first c x ∨ c = '/' ∧ x.head? = some '/' ∧ '\n' ∉ x := by
  by_cases hline : c = '/' ∧ x.head? = some '/'
  · obtain ⟨rfl, hhead⟩ := hline
    by_cases hn : '\n' ∈ x
    · left
      have hhead' : (x ++ y).head? = some '/' := by
        rw [List.head?_append, hhead]
        rfl
      have htake : (x ++ y).takeWhile (· ≠ '\n') = x.takeWhile (· ≠ '\n') := by
        rw [List.takeWhile_append, if_neg]
        intro hlen
        have hall := List.takeWhile_eq_self_iff.mp
          ((List.takeWhile_prefix (l := x) (· ≠ '\n')).eq_of_length hlen)
        simpa using hall '\n' hn
      rw [first_lineComment hhead', first_lineComment hhead, htake]
    · exact .inr ⟨rfl, hhead, hn⟩
  · exact .inl (first_inert hy hline)

/-! ## All pieces -/

/-- The pieces of a source behind the pieces `ps`. -/
def behind (ps : List Piece) :
    Except (List Piece × LexFault) (List Piece) → Except (List Piece × LexFault) (List Piece)
  | .ok qs => .ok (ps ++ qs)
  | .error (qs, e) => .error (ps ++ qs, e)

theorem behind_behind (ps qs : List Piece) (r : Except (List Piece × LexFault) (List Piece)) :
    behind ps (behind qs r) = behind (ps ++ qs) r := by
  cases r <;> simp only [behind, List.append_assoc]

theorem behind_nil (r : Except (List Piece × LexFault) (List Piece)) : behind [] r = r := by
  cases r <;> rfl

theorem behind_eq_ok {ps qs : List Piece} {r : Except (List Piece × LexFault) (List Piece)} :
    behind ps r = .ok qs ↔ ∃ qs', r = .ok qs' ∧ qs = ps ++ qs' := by
  cases r <;> simp [behind, eq_comm]

theorem cut_eq_behind {c : Char} {r : List Char} {p : Piece} (hf : first c r = .ok p) :
    cut (c :: r) = behind [p] (cut (r.drop (p.text.length - 1))) := by
  rw [cut]
  simp only [hf]
  cases cut (r.drop (p.text.length - 1)) <;> rfl

/-- What a first piece leaves of a source, with a text behind it. -/
theorem drop_append_of_first {c : Char} {p : Piece} (h : first c x = .ok p) (y : List Char) :
    (x ++ y).drop (p.text.length - 1) = x.drop (p.text.length - 1) ++ y := by
  have hlen := (first_front h).length_le
  rw [List.length_cons] at hlen
  exact List.drop_append_of_le_length (by omega)

theorem takeWhile_eq_self {x : List Char} (hn : '\n' ∉ x) : x.takeWhile (· ≠ '\n') = x := by
  rw [List.takeWhile_eq_self_iff]
  intro d hd
  have hne : d ≠ '\n' := by
    rintro rfl
    exact hn hd
  simpa using hne

theorem first_lastComment {x : List Char} (hhead : x.head? = some '/') (hn : '\n' ∉ x) :
    first '/' x = .ok (lineComment ('/' :: x)) ∧
      x.drop ((lineComment ('/' :: x)).text.length - 1) = [] := by
  refine ⟨?_, ?_⟩
  · rw [first_lineComment hhead, takeWhile_eq_self hn]
  · rw [text, List.length_cons, Nat.add_sub_cancel, List.drop_length]

/-- If a source can be cut with an inert text behind it, it can be cut. -/
theorem exists_cut_of_inert (hy : Inert y) {qs : List Piece} (h : cut (x ++ y) = .ok qs) :
    ∃ ps, cut x = .ok ps := by
  induction x using cut.induct generalizing qs with
  | case1 => exact ⟨[], by rw [cut]⟩
  | case2 c r e hf =>
    rw [List.cons_append] at h
    obtain ⟨p, ps', hf', -⟩ := cut_cons h
    rcases first_inert_cases (c := c) (x := r) hy with hsame | ⟨rfl, hhead, hn⟩
    · rw [hsame, hf] at hf'
      cases hf'
    · rw [(first_lastComment hhead hn).1] at hf
      cases hf
  | case3 c r p hf ps' hc ih => exact ⟨p :: ps', cut_of_first hf hc⟩
  | case4 c r p hf ps' e hc ih =>
    rw [List.cons_append] at h
    obtain ⟨p', qs', hf', hc', -⟩ := cut_cons h
    rcases first_inert_cases (c := c) (x := r) hy with hsame | ⟨rfl, hhead, hn⟩
    · cases (hsame.trans hf).symm.trans hf'
      rw [drop_append_of_first hf] at hc'
      obtain ⟨ps, hps⟩ := ih hc'
      rw [hc] at hps
      cases hps
    · obtain ⟨hlast, hnil⟩ := first_lastComment hhead hn
      cases hf.symm.trans hlast
      rw [hnil, cut] at hc
      cases hc

/-- The pieces of a source that does not end in a line comment stay as they are. -/
theorem cut_inert (hy : Inert y) {ps : List Piece} (h : cut x = .ok ps)
    (hps : ∀ t, ps.getLast? ≠ some (lineComment t)) : cut (x ++ y) = behind ps (cut y) := by
  induction x using cut.induct generalizing ps with
  | case1 =>
    rw [cut] at h
    cases h
    exact (behind_nil _).symm
  | case2 c r e hf =>
    obtain ⟨p, ps', hf', -⟩ := cut_cons h
    rw [hf] at hf'
    cases hf'
  | case3 c r p hf ps' hc ih =>
    obtain ⟨p', ps'', hf', hc', rfl⟩ := cut_cons h
    cases hf.symm.trans hf'
    cases hc.symm.trans hc'
    rcases first_inert_cases (c := c) (x := r) hy with hsame | ⟨rfl, hhead, hn⟩
    · have htail : ∀ t, ps'.getLast? ≠ some (lineComment t) := by
        intro t ht
        refine hps t ?_
        rw [List.getLast?_cons, ht]
        rfl
      rw [List.cons_append, cut_eq_behind (hsame.trans hf), drop_append_of_first hf, ih hc htail,
        behind_behind, List.singleton_append]
    · -- a comment that goes to the end of the source is its last piece
      obtain ⟨hlast, hnil⟩ := first_lastComment hhead hn
      cases hf.symm.trans hlast
      rw [hnil, cut] at hc
      cases hc
      exact absurd rfl (hps _)
  | case4 c r p hf ps' e hc ih =>
    obtain ⟨p', ps'', hf', hc', rfl⟩ := cut_cons h
    cases hf.symm.trans hf'
    rw [hc] at hc'
    cases hc'

theorem eq_nil_of_cut {cs : List Char} (h : cut cs = .ok []) : cs = [] := by
  cases cs with
  | nil => rfl
  | cons c r =>
    obtain ⟨p, ps', -, -, hps⟩ := cut_cons h
    cases hps

/-- A line comment begins with two slashes. -/
theorem head?_of_lineComment {c : Char} {r t : List Char}
    (h : first c r = .ok (lineComment t)) : c = '/' ∧ r.head? = some '/' := by
  by_cases hline : c = '/' ∧ r.head? = some '/'
  · exact hline
  exfalso
  unfold first quoted at h
  rw [if_neg hline] at h
  repeat' split at h
  all_goals cases h

/-- A line comment that nothing is left behind goes to the end of the source. -/
theorem newline_not_mem_of_drop {r : List Char}
    (h : r.drop ((lineComment ('/' :: r.takeWhile (· ≠ '\n'))).text.length - 1) = []) :
    '\n' ∉ r := by
  rw [text, List.length_cons, Nat.add_sub_cancel, List.drop_eq_nil_iff] at h
  have hall := List.takeWhile_eq_self_iff.mp
    ((List.takeWhile_prefix (l := r) (· ≠ '\n')).eq_of_length_le h)
  intro hmem
  simpa using hall '\n' hmem

/-- A line comment takes what stands behind it, up to the next line end. -/
theorem first_extendedComment {r z : List Char} (hhead : r.head? = some '/') (hr : '\n' ∉ r)
    (hn : '\n' ∉ y) (hz : z = [] ∨ ∃ z', z = '\n' :: z') :
    first '/' (r ++ (y ++ z)) = .ok (lineComment ('/' :: (r ++ y))) ∧
      (r ++ (y ++ z)).drop ((lineComment ('/' :: (r ++ y))).text.length - 1) = z := by
  have hhead' : (r ++ (y ++ z)).head? = some '/' := by
    rw [List.head?_append, hhead]
    rfl
  have hry : '\n' ∉ r ++ y := by simp [hr, hn]
  have htake : (r ++ (y ++ z)).takeWhile (· ≠ '\n') = r ++ y := by
    rw [← List.append_assoc]
    rcases hz with rfl | ⟨z', rfl⟩
    · rw [List.append_nil, takeWhile_eq_self hry]
    · rw [List.takeWhile_append, takeWhile_eq_self hry, if_pos rfl,
        List.takeWhile_cons_of_neg (by simp), List.append_nil]
  refine ⟨?_, ?_⟩
  · rw [first_lineComment hhead', htake]
  · rw [text, List.length_cons, Nat.add_sub_cancel, ← List.append_assoc, List.drop_left]

/-- A line comment at the end of a source goes on to the next line end. -/
theorem cut_comment {z : List Char} (hyz : Inert (y ++ z)) (hn : '\n' ∉ y)
    (hz : z = [] ∨ ∃ z', z = '\n' :: z') {ps : List Piece} {t : List Char}
    (h : cut x = .ok (ps ++ [lineComment t])) :
    cut (x ++ (y ++ z)) = behind (ps ++ [lineComment (t ++ y)]) (cut z) := by
  induction x using cut.induct generalizing ps with
  | case1 =>
    rw [cut, Except.ok.injEq] at h
    exact absurd h.symm (List.append_ne_nil_of_right_ne_nil _ (List.cons_ne_nil _ _))
  | case2 c r e hf =>
    obtain ⟨p, ps', hf', -⟩ := cut_cons h
    rw [hf] at hf'
    cases hf'
  | case3 c r p hf ps' hc ih =>
    obtain ⟨p', ps'', hf', hc', hps⟩ := cut_cons h
    cases hf.symm.trans hf'
    cases hc.symm.trans hc'
    cases ps with
    | cons p₀ ps =>
      cases hps
      rcases first_inert_cases (c := c) (x := r) hyz with hsame | ⟨rfl, hhead, hn'⟩
      · rw [List.cons_append, cut_eq_behind (hsame.trans hf), drop_append_of_first hf, ih hc,
          behind_behind, List.singleton_append, List.cons_append]
      · -- a comment that goes to the end of the source is its last piece
        obtain ⟨hlast, hnil⟩ := first_lastComment hhead hn'
        cases hf.symm.trans hlast
        rw [hnil, cut, Except.ok.injEq] at hc
        exact absurd hc.symm (List.append_ne_nil_of_right_ne_nil _ (List.cons_ne_nil _ _))
    | nil =>
      cases hps
      obtain ⟨rfl, hhead⟩ := head?_of_lineComment hf
      rw [first_lineComment hhead] at hf
      cases hf
      have hr : '\n' ∉ r := newline_not_mem_of_drop (eq_nil_of_cut hc)
      obtain ⟨hcomment, hrest⟩ := first_extendedComment hhead hr hn hz
      rw [List.cons_append, cut_eq_behind hcomment, hrest, takeWhile_eq_self hr]
      rfl
  | case4 c r p hf ps' e hc ih =>
    obtain ⟨p', ps'', hf', hc', -⟩ := cut_cons h
    cases hf.symm.trans hf'
    rw [hc] at hc'
    cases hc'

end Piece

end GoRepl
