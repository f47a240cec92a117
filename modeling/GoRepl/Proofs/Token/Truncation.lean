import GoRepl.Proofs.Token.Pieces

/-! # Sources that end early

A piece is cut from the front of a source only after all that follows was looked at.  Still it is
the same piece if the source ends anywhere behind it.

* `Piece.throughQuote_truncated`, `Number.read_truncated`, `Symbol.read?_truncated` and the lemmas
  beside them: what is read of a source, read of a part of the source that it stands in.
* `Piece.first_truncated`: so the first piece is the same.
* `Piece.fronts_nil`: the pieces before any place of a source are all pieces of what stands before
  that place.
-/

namespace GoRepl

theorem takeWhile_truncated {α : Type} {f : α → Bool} {x y : List α}
    (h : (x ++ y).takeWhile f <+: x) : x.takeWhile f = (x ++ y).takeWhile f := by
  rw [List.takeWhile_append] at h ⊢
  by_cases hall : (x.takeWhile f).length = x.length
  · rw [if_pos hall] at h ⊢
    have hnone : y.takeWhile f = [] := by
      have hlen := h.length_le
      rw [List.length_append] at hlen
      exact List.length_eq_zero_iff.mp (by omega)
    rw [hnone, List.append_nil]
    exact (List.takeWhile_prefix f).eq_of_length hall
  · rw [if_neg hall]

namespace Piece

variable {x y t : List Char} {q : Char}

theorem throughQuote_truncated (h : throughQuote q (x ++ y) = some t) (ht : t <+: x) :
    throughQuote q x = some t := by
  induction x using throughQuote.induct q generalizing t with
  | case1 =>
    obtain ⟨-, -, hlast⟩ := throughQuote_front h
    rw [List.prefix_nil.mp ht] at hlast
    cases hlast
  | case2 r =>
    rw [List.cons_append, throughQuote_feed] at h
    cases h
  | case3 =>
    -- a backslash takes the next character along
    cases y with
    | nil => exact h
    | cons e y =>
      by_cases he : e = '\n'
      · rw [throughQuote.eq_def, he] at h
        cases h
      · rw [List.singleton_append, throughQuote_escape he] at h
        obtain ⟨t', -, rfl⟩ := Option.map_eq_some_iff.mp h
        have hlen := ht.length_le
        simp at hlen
  | case4 r =>
    rw [throughQuote.eq_def] at h
    cases h
  | case5 e r he hb ih =>
    rw [List.cons_append, List.cons_append, throughQuote_escape he] at h
    obtain ⟨t', ht', rfl⟩ := Option.map_eq_some_iff.mp h
    have hpre := (List.cons_prefix_cons.mp (List.cons_prefix_cons.mp ht).2).2
    rw [throughQuote_escape he, ih ht' hpre, Option.map_some]
  | case6 r hn hb =>
    rw [List.cons_append, throughQuote_end hn hb] at h
    rw [throughQuote_end hn hb, h]
  | case7 c r hn hb hne ih =>
    rw [List.cons_append, throughQuote_cons hn hb hne] at h
    obtain ⟨t', ht', rfl⟩ := Option.map_eq_some_iff.mp h
    rw [throughQuote_cons hn hb hne, ih ht' (List.cons_prefix_cons.mp ht).2, Option.map_some]

theorem throughBackQuote_truncated (h : throughBackQuote (x ++ y) = some t) (ht : t <+: x) :
    throughBackQuote x = some t := by
  induction x generalizing t with
  | nil =>
    obtain ⟨-, hlast⟩ := throughBackQuote_front h
    rw [List.prefix_nil.mp ht] at hlast
    cases hlast
  | cons c x ih =>
    by_cases hc : c = '\x60'
    · rw [List.cons_append, throughBackQuote, if_pos hc] at h
      rw [throughBackQuote, if_pos hc, h]
    · rw [List.cons_append, throughBackQuote_cons hc] at h
      obtain ⟨t', ht', rfl⟩ := Option.map_eq_some_iff.mp h
      rw [throughBackQuote_cons hc, ih ht' (List.cons_prefix_cons.mp ht).2, Option.map_some]

theorem throughCommentEnd_truncated (h : throughCommentEnd (x ++ y) = some t) (ht : t <+: x) :
    throughCommentEnd x = some t := by
  induction x using throughCommentEnd.induct generalizing t with
  | case1 r =>
    rw [List.cons_append, List.cons_append, throughCommentEnd] at h
    rw [throughCommentEnd, h]
  | case2 c r hc ih =>
    by_cases hclose : c = '*' ∧ (r ++ y).head? = some '/'
    · -- the end of the comment would go beyond the shorter source
      obtain ⟨rfl, hhead⟩ := hclose
      cases r with
      | nil =>
        obtain ⟨z, rfl⟩ := List.head?_eq_some_iff.mp hhead
        rw [List.singleton_append, throughCommentEnd] at h
        cases h
        have hlen := ht.length_le
        simp at hlen
      | cons d r =>
        cases hhead
        exact absurd rfl (hc r rfl)
    · have hcons : throughCommentEnd (c :: (r ++ y)) = (throughCommentEnd (r ++ y)).map (c :: ·) :=
        throughCommentEnd_cons fun hs hhead => hclose ⟨hs, hhead⟩
      rw [List.cons_append, hcons] at h
      obtain ⟨t', ht', rfl⟩ := Option.map_eq_some_iff.mp h
      rw [throughCommentEnd.eq_2 c r hc, ih ht' (List.cons_prefix_cons.mp ht).2, Option.map_some]
  | case3 =>
    obtain ⟨-, hlast⟩ := throughCommentEnd_front h
    rw [List.prefix_nil.mp ht] at hlast
    cases hlast

end Piece

namespace Number

variable {x y r t : List Char} {c : Char} {b : Base} {f f' : Bool} {cls : LiteralClass}

/-- An exponent is a mark, perhaps a sign, and a number that starts with a digit. -/
theorem mantissa_mark_eq_ok (hd : ¬isMantissaDigit b c = true)
    (hp : ¬(c == '.' && !f && b.point) = true) (hm : b.isExponentMark c = true) :
    mantissa b f (c :: r) = .ok (t, f') ↔
      ∃ sign r' t', sign ∈ [[], ['+'], ['-']] ∧ r = sign ++ r' ∧ startsWithDigit r' = true ∧
        mantissa b true r' = .ok (t', f') ∧ t = c :: (sign ++ t') := by
  rw [mantissa_mark hd hp hm]
  constructor
  · intro h
    cases r with
    | nil => cases h
    | cons s r =>
      simp only at h
      split at h
      · rename_i hs
        split at h
        · rename_i hstart
          obtain ⟨t', ht', rfl⟩ := extend_eq_ok.mp h
          exact ⟨[s], r, t', by simpa using hs, rfl, hstart, ht', rfl⟩
        · cases h
      · split at h
        · rename_i hdigit
          obtain ⟨t', ht', rfl⟩ := extend_eq_ok.mp h
          exact ⟨[], s :: r, t', .head _, rfl, hdigit, ht', rfl⟩
        · cases h
  · rintro ⟨sign, r', t', hsign, rfl, hstart, ht', rfl⟩
    have hunsigned {d : Char} (hdigit : d.isDigit = true) : (d == '+' || d == '-') = false := by
      rw [Bool.eq_false_iff, ne_eq, Bool.or_eq_true, beq_iff_eq, beq_iff_eq]
      rintro (rfl | rfl) <;> exact absurd hdigit (by decide)
    simp only [List.mem_cons, List.not_mem_nil, or_false] at hsign
    obtain rfl | rfl | rfl := hsign
    · cases r' with
      | nil => cases hstart
      | cons d r' =>
        have hdigit : d.isDigit = true := hstart
        simp only [List.nil_append, hunsigned hdigit, hdigit, Bool.false_eq_true, if_false, if_true]
        exact extend_eq_ok.mpr ⟨t', ht', rfl⟩
    · simp only [List.singleton_append, hstart, if_true]
      exact extend_eq_ok.mpr ⟨t', ht', rfl⟩
    · simp only [List.singleton_append, hstart, if_true]
      exact extend_eq_ok.mpr ⟨t', ht', rfl⟩

/-- A mantissa without characters leaves the number as it was. -/
theorem mantissa_nil (h : mantissa b f y = .ok ([], f')) : f' = f := by
  cases y with
  | nil =>
    rw [mantissa] at h
    cases h
    rfl
  | cons c r =>
    by_cases hd : isMantissaDigit b c = true
    · rw [mantissa_digit hd] at h
      obtain ⟨t, -, ht⟩ := extend_eq_ok.mp h
      cases ht
    by_cases hp : (c == '.' && !f && b.point) = true
    · rw [mantissa_point hd hp] at h
      obtain ⟨t, -, ht⟩ := extend_eq_ok.mp h
      cases ht
    by_cases hm : b.isExponentMark c = true
    · obtain ⟨_, _, _, -, -, -, -, ht⟩ := (mantissa_mark_eq_ok hd hp hm).mp h
      cases ht
    · rw [mantissa_stop hd hp hm] at h
      cases h
      rfl

/-- A mantissa takes the digit in front of it. -/
theorem mantissa_startsWithDigit (hy : startsWithDigit y = true)
    (h : mantissa b f y = .ok (t, f')) : t ≠ [] := by
  cases y with
  | nil => cases hy
  | cons d y =>
    have hd : isMantissaDigit b d = true := by
      rw [isMantissaDigit, show d.isDigit = true from hy]
      rfl
    rw [mantissa_digit hd] at h
    obtain ⟨t', -, rfl⟩ := extend_eq_ok.mp h
    exact List.cons_ne_nil d t'

theorem startsWithDigit_truncated (h : startsWithDigit (x ++ y) = true) (hx : x ≠ []) :
    startsWithDigit x = true := by
  cases x with
  | nil => exact absurd rfl hx
  | cons d x => exact h

theorem mantissa_truncated (h : mantissa b f (x ++ y) = .ok (t, f')) (ht : t <+: x) :
    mantissa b f x = .ok (t, f') := by
  induction hn : x.length using Nat.strong_induction_on generalizing x f t with
  | _ n ih =>
  subst hn
  cases x with
  | nil =>
    obtain rfl := List.prefix_nil.mp ht
    rw [mantissa, mantissa_nil h]
  | cons c x =>
    rw [List.cons_append] at h
    by_cases hd : isMantissaDigit b c = true
    · rw [mantissa_digit hd] at h ⊢
      obtain ⟨t', ht', rfl⟩ := extend_eq_ok.mp h
      exact extend_eq_ok.mpr
        ⟨t', ih _ (Nat.lt_succ_self _) ht' (List.cons_prefix_cons.mp ht).2 rfl, rfl⟩
    by_cases hp : (c == '.' && !f && b.point) = true
    · rw [mantissa_point hd hp] at h ⊢
      obtain ⟨t', ht', rfl⟩ := extend_eq_ok.mp h
      exact extend_eq_ok.mpr
        ⟨t', ih _ (Nat.lt_succ_self _) ht' (List.cons_prefix_cons.mp ht).2 rfl, rfl⟩
    by_cases hm : b.isExponentMark c = true
    · obtain ⟨sign, r, t', hsign, hr, hstart, ht', rfl⟩ := (mantissa_mark_eq_ok hd hp hm).mp h
      -- the text has the sign and the digit behind it, so `x` has them too
      obtain ⟨z, rfl⟩ := (List.cons_prefix_cons.mp ht).2
      rw [List.append_assoc, List.append_assoc, List.append_cancel_left_eq] at hr
      subst hr
      rw [← List.append_assoc] at hstart ht'
      have hne : t' ++ z ≠ [] :=
        List.append_ne_nil_of_left_ne_nil (mantissa_startsWithDigit hstart ht') z
      have hlt : (t' ++ z).length < (c :: (sign ++ t' ++ z)).length := by
        simp only [List.length_cons, List.length_append]
        omega
      exact (mantissa_mark_eq_ok hd hp hm).mpr ⟨sign, t' ++ z, t', hsign, List.append_assoc ..,
        startsWithDigit_truncated hstart hne, ih _ hlt ht' (List.prefix_append t' z) rfl, rfl⟩
    · rw [mantissa_stop hd hp hm] at h ⊢
      exact h

theorem baseMark_eq_nil (cs : List Char) (h : (baseMark cs).1.length ≤ 1) :
    baseMark cs = ([], ⟨false, true⟩) := by
  have hmark : (baseMark cs).1 = [] := by
    unfold baseMark at h ⊢
    split
    · split
      · rename_i hm
        simp [hm] at h
      · rfl
    · rfl
  exact Prod.ext hmark (baseMark_bare hmark)

theorem baseMark_truncated (h : (baseMark (x ++ y)).1 <+: x) :
    baseMark x = baseMark (x ++ y) := by
  match x with
  | [] => rw [baseMark_eq_nil _ (h.length_le.trans (Nat.zero_le 1))]; rfl
  | [c] =>
    rw [baseMark_eq_nil _ h.length_le]
    exact baseMark_eq_nil _ (baseMark_front [c]).length_le
  | c :: m :: x =>
    rw [List.cons_append, List.cons_append]
    unfold baseMark
    by_cases hc : c = '0'
    · subst hc
      rfl
    · simp [hc]

theorem digits_truncated (h : digits (x ++ y) = .ok (t, f)) (ht : t <+: x) :
    digits x = .ok (t, f) := by
  obtain ⟨t', ht', rfl⟩ := extend_eq_ok.mp h
  have hmark : (baseMark (x ++ y)).1 <+: x := (List.prefix_append _ t').trans ht
  have hbase := baseMark_truncated hmark
  rw [List.drop_append_of_le_length hmark.length_le] at ht'
  have hx := List.prefix_iff_eq_append.mp hmark
  have hdrop : t' <+: x.drop (baseMark (x ++ y)).1.length := by
    refine (List.prefix_append_right_inj (baseMark (x ++ y)).1).mp ?_
    rw [hx]
    exact ht
  rw [digits, hbase, mantissa_truncated ht' hdrop]
  rfl

theorem judge_eq_ok {bare : Bool} {ds rest : List Char} (h : judge bare ds f rest = .ok (cls, t)) :
    t = ds ++ suffix rest ∧ (rest.drop (suffix rest).length).takeWhile isWordChar = [] := by
  unfold judge at h
  dsimp only at h
  split at h
  · cases h
  split at h
  · cases h
  split at h
  · cases h
  · rename_i htail
    cases h
    exact ⟨rfl, by simpa using htail⟩

theorem judge_truncated {bare : Bool} {ds : List Char}
    (h : judge bare ds f (x ++ y) = .ok (cls, t)) (hsuffix : suffix (x ++ y) <+: x) :
    judge bare ds f x = .ok (cls, t) := by
  have hhead : (x.head? == some 'i') = ((x ++ y).head? == some 'i') := by
    cases x with
    | cons c x => rfl
    | nil =>
      have hnone := List.prefix_nil.mp hsuffix
      unfold suffix at hnone
      split at hnone
      · cases hnone
      · rename_i hi
        exact (Bool.eq_false_iff.mpr hi).symm
  have hsame : suffix x = suffix (x ++ y) := by rw [suffix, suffix, hhead]
  obtain ⟨-, htail⟩ := judge_eq_ok h
  have hdrop : (x ++ y).drop (suffix (x ++ y)).length = x.drop (suffix (x ++ y)).length ++ y :=
    List.drop_append_of_le_length hsuffix.length_le
  have htail' : (x.drop (suffix (x ++ y)).length).takeWhile isWordChar = [] := by
    rw [hdrop] at htail
    rw [takeWhile_truncated (htail ▸ List.nil_prefix), htail]
  unfold judge at h ⊢
  rw [hsame, hhead, htail']
  rwa [htail] at h

/-- A number is read again from a part of the source that it stands in. -/
theorem read_truncated (h : read (x ++ y) = .ok (cls, t)) (ht : t <+: x) :
    read x = .ok (cls, t) := by
  rw [read_eq] at h ⊢
  cases hd : digits (x ++ y) with
  | error e =>
    rw [hd] at h
    cases h
  | ok p =>
    obtain ⟨ds, fractional⟩ := p
    rw [hd] at h
    simp only [Except.bind] at h
    obtain ⟨htext, -⟩ := judge_eq_ok h
    rw [htext] at ht
    have hds : ds <+: x := (List.prefix_append ds _).trans ht
    have hmark : (baseMark (x ++ y)).1 <+: x := by
      obtain ⟨t', -, rfl⟩ := extend_eq_ok.mp hd
      exact (List.prefix_append _ t').trans hds
    rw [List.drop_append_of_le_length hds.length_le] at h ht
    have hsuffix : suffix (x.drop ds.length ++ y) <+: x.drop ds.length := by
      refine (List.prefix_append_right_inj ds).mp ?_
      rwa [List.prefix_iff_eq_append.mp hds]
    rw [digits_truncated hd hds, baseMark_truncated hmark]
    exact judge_truncated h hsuffix

end Number

namespace Symbol

variable {x y : List Char} {s : Symbol}

theorem read?_truncated (h : read? (x ++ y) = some s) (hs : s.chars <+: x) : read? x = some s := by
  unfold read? at h ⊢
  obtain ⟨-, before, behind, hall, hnone⟩ := List.find?_eq_some_iff_append.mp h
  refine List.find?_eq_some_iff_append.mpr
    ⟨List.isPrefixOf_iff_prefix.mpr hs, before, behind, hall, fun u hu => ?_⟩
  have hnot := hnone u hu
  rw [Bool.not_eq_true', Bool.eq_false_iff, ne_eq, List.isPrefixOf_iff_prefix] at hnot ⊢
  exact fun hpre => hnot (hpre.trans (List.prefix_append x y))

end Symbol

namespace Piece

variable {c : Char} {x y t : List Char} {p : Piece}

/-- A number that starts with a point takes the digit behind it. -/
theorem length_read_point {r t : List Char} {cls : LiteralClass}
    (hr : Number.startsWithDigit r = true) (h : Number.read ('.' :: r) = .ok (cls, t)) :
    2 ≤ t.length := by
  rw [Number.read_eq] at h
  cases hd : Number.digits ('.' :: r) with
  | error e =>
    rw [hd] at h
    cases h
  | ok p =>
    obtain ⟨ds, f⟩ := p
    rw [hd] at h
    obtain ⟨htext, -⟩ := Number.judge_eq_ok h
    have hmantissa : Number.mantissa.extend []
      (Number.mantissa ⟨false, true⟩ false ('.' :: r)) = .ok (ds, f) := hd
    rw [Number.mantissa_point (by decide) rfl] at hmantissa
    obtain ⟨m, hm, rfl⟩ := Number.extend_eq_ok.mp hmantissa
    obtain ⟨m', hm', rfl⟩ := Number.extend_eq_ok.mp hm
    have hpos := List.length_pos_iff.mpr (Number.mantissa_startsWithDigit hr hm')
    simp only [htext, List.length_append, List.length_singleton]
    omega

theorem startsNumber_truncated (h : startsNumber c (x ++ y) = true) {cls : LiteralClass}
    (hread : Number.read (c :: (x ++ y)) = .ok (cls, c :: t)) (ht : t <+: x) :
    startsNumber c x = true := by
  rw [startsNumber, Bool.or_eq_true, Bool.and_eq_true, beq_iff_eq] at h ⊢
  refine h.imp_right fun hpoint => ⟨hpoint.1, ?_⟩
  obtain ⟨rfl, hdigit⟩ := hpoint
  cases x with
  | cons d x => exact hdigit
  | nil =>
    have hlen := length_read_point hdigit hread
    rw [List.prefix_nil.mp ht] at hlen
    exact absurd hlen (by decide)

theorem startsNumber_append_of (h : startsNumber c x = true) (y : List Char) :
    startsNumber c (x ++ y) = true := by
  rw [startsNumber, Bool.or_eq_true, Bool.and_eq_true] at h ⊢
  refine h.imp_right fun hpoint => ⟨hpoint.1, ?_⟩
  have hdigit := hpoint.2
  cases x with
  | nil => cases hdigit
  | cons d x => exact hdigit

theorem head?_of_cons_prefix {d : Char} {u : List Char} (h : d :: u <+: x) :
    x.head? = some d := by
  obtain ⟨z, rfl⟩ := h
  rfl

theorem lineComment_truncated (mark : (x ++ y).head? = some '/')
    (h : first '/' (x ++ y) = .ok p) (hp : p.text = '/' :: t) (ht : t <+: x) :
    first '/' x = .ok p := by
  rw [first_lineComment mark] at h
  cases h
  cases hp
  have mark' : x.head? = some '/' := by
    obtain ⟨z, hz⟩ := List.head?_eq_some_iff.mp mark
    rw [hz, List.takeWhile_cons_of_pos (by decide)] at ht
    exact head?_of_cons_prefix ht
  rw [first_lineComment mark', takeWhile_truncated ht]

theorem blockComment_truncated (mark : (x ++ y).head? = some '*')
    (h : first '/' (x ++ y) = .ok p) (hp : p.text = '/' :: t) (ht : t <+: x) :
    first '/' x = .ok p := by
  obtain ⟨t', hclose, rfl⟩ := (first_blockComment mark).mp h
  cases hp
  obtain ⟨z, rfl⟩ := ht
  have hclose' := throughCommentEnd_truncated (x := t' ++ z) hclose (List.prefix_append t' z)
  exact (first_blockComment rfl).mpr ⟨t', hclose', rfl⟩

theorem quoted_truncated {cls : LiteralClass} {fault : LexFault}
    {scan : List Char → Option (List Char)}
    (hscan : ∀ {t}, scan (x ++ y) = some t → t <+: x → scan x = some t)
    (h : quoted cls c (scan (x ++ y)) fault = .ok p) (hp : p.text = c :: t) (ht : t <+: x) :
    quoted cls c (scan x) fault = .ok p := by
  obtain ⟨t', ht', rfl⟩ := quoted_eq_ok.mp h
  cases hp
  exact quoted_eq_ok.mpr ⟨t, hscan ht' ht, rfl⟩

/-- The first piece of a source is the same in a part of the source that it stands in. -/
theorem first_truncated (h : first c (x ++ y) = .ok p) (hp : p.text = c :: t) (ht : t <+: x) :
    first c x = .ok p := by
  have hpre : c :: t <+: c :: x := List.cons_prefix_cons.mpr ⟨rfl, ht⟩
  have hhead {d : Char} (hd : x.head? = some d) : (x ++ y).head? = some d := by
    rw [List.head?_append, hd]
    rfl
  by_cases hline : c = '/' ∧ (x ++ y).head? = some '/'
  · obtain ⟨rfl, mark⟩ := hline
    exact lineComment_truncated mark h hp ht
  by_cases hblock : c = '/' ∧ (x ++ y).head? = some '*'
  · obtain ⟨rfl, mark⟩ := hblock
    exact blockComment_truncated mark h hp ht
  have hline' : ¬(c = '/' ∧ x.head? = some '/') := fun hl => hline ⟨hl.1, hhead hl.2⟩
  have hblock' : ¬(c = '/' ∧ x.head? = some '*') := fun hb => hblock ⟨hb.1, hhead hb.2⟩
  unfold first at h ⊢
  rw [if_neg hline, if_neg hblock] at h
  rw [if_neg hline', if_neg hblock']
  by_cases hnewline : c = '\n'
  · rwa [if_pos hnewline] at h ⊢
  rw [if_neg hnewline] at h ⊢
  by_cases hblank : c = ' ' ∨ c = '\t' ∨ c = '\r'
  · rwa [if_pos hblank] at h ⊢
  rw [if_neg hblank] at h ⊢
  by_cases hstring : c = '"'
  · rw [if_pos hstring] at h ⊢
    exact quoted_truncated throughQuote_truncated h hp ht
  rw [if_neg hstring] at h ⊢
  by_cases hrune : c = '\''
  · rw [if_pos hrune] at h ⊢
    exact quoted_truncated throughQuote_truncated h hp ht
  rw [if_neg hrune] at h ⊢
  by_cases hraw : c = '\x60'
  · rw [if_pos hraw] at h ⊢
    exact quoted_truncated throughBackQuote_truncated h hp ht
  rw [if_neg hraw] at h ⊢
  by_cases hnumber : startsNumber c (x ++ y) = true
  · rw [if_pos hnumber] at h
    cases hread : Number.read (c :: (x ++ y)) with
    | error e =>
      rw [hread] at h
      cases h
    | ok read =>
      obtain ⟨cls, w⟩ := read
      rw [hread] at h
      cases h
      cases hp
      rw [if_pos (startsNumber_truncated hnumber hread ht)]
      rw [← List.cons_append] at hread
      rw [Number.read_truncated hread hpre]
  rw [if_neg hnumber] at h
  rw [if_neg fun hn => hnumber (startsNumber_append_of hn y)]
  by_cases hword : startsWord c = true
  · rw [if_pos hword] at h ⊢
    cases h
    cases hp
    rw [takeWhile_truncated ht]
  rw [if_neg hword] at h ⊢
  cases hread : Symbol.read? (c :: (x ++ y)) with
  | none =>
    rw [hread] at h
    cases h
  | some s =>
    rw [hread] at h
    cases h
    have hchars : s.chars = c :: t := hp
    rw [← List.cons_append] at hread
    rw [Symbol.read?_truncated hread (hchars ▸ hpre)]

/-- The pieces in front of any text are pieces without it. -/
theorem fronts_nil {z : List Char} {ps : List Piece} (h : Fronts z ps) : Fronts [] ps := by
  induction ps with
  | nil => trivial
  | cons p ps ih =>
    obtain ⟨⟨c, t, ht, hf⟩, hrest⟩ := h
    rw [← List.append_assoc] at hf
    refine ⟨⟨c, t, ht, ?_⟩, ih hrest⟩
    rw [List.append_nil]
    exact first_truncated hf ht (List.prefix_append t _)

end Piece

end GoRepl
