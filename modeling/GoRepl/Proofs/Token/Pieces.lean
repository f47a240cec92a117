import GoRepl.Proofs.Token.Trailing

/-! # The pieces of a source

Every piece is cut from the front of the text that it and the pieces behind it make up, and the
pieces together make up the source.

* `Piece.Fronts`, `Piece.cut_fronts`: pieces that are cut in front of any text.
* `Piece.text_of_first`: a piece takes at least one character.
* `Piece.fronts_of_cut`, `Piece.text_of_cut`: the pieces of a source.
-/

namespace GoRepl

namespace Piece

/-- Each of the pieces is cut from the front of its text, with `z` behind them all. -/
def Fronts (z : List Char) : List Piece → Prop
  | [] => True
  | p :: ps => (∃ c t, p.text = c :: t ∧ first c (t ++ (ps.flatMap text ++ z)) = .ok p) ∧
      Fronts z ps

theorem cut_fronts {z : List Char} {ps : List Piece} (h : Fronts z ps) :
    cut (ps.flatMap text ++ z) = behind ps (cut z) := by
  induction ps with
  | nil => exact (behind_nil _).symm
  | cons p ps ih =>
    obtain ⟨⟨c, t, ht, hf⟩, hrest⟩ := h
    have hdrop : (t ++ (ps.flatMap text ++ z)).drop (p.text.length - 1) =
        ps.flatMap text ++ z := by
      rw [ht, List.length_cons, Nat.add_sub_cancel, List.drop_left]
    rw [List.flatMap_cons, ht, List.append_assoc, List.cons_append, cut_eq_behind hf, hdrop,
      ih hrest, behind_behind]
    rfl

end Piece

/-! ## No piece is empty -/

theorem Symbol.chars_ne_nil (s : Symbol) : s.chars ≠ [] := by
  cases s with
  | binary op =>
    cases op with
    | arith op => cases op <;> exact List.cons_ne_nil _ _
    | _ => exact List.cons_ne_nil _ _
  | compound op => exact List.append_ne_nil_of_right_ne_nil _ (List.cons_ne_nil _ _)
  | _ => exact List.cons_ne_nil _ _

namespace Number

variable {c : Char} {r t : List Char} {cls : LiteralClass} {f : Bool}

theorem baseMark_bare {cs : List Char} (h : (baseMark cs).1 = []) :
    (baseMark cs).2 = ⟨false, true⟩ := by
  revert h
  unfold baseMark
  split
  · split
    · exact nofun
    · exact fun _ => rfl
  · exact fun _ => rfl

/-- A number takes its first digit or point. -/
theorem digits_ne_nil (hc : Piece.startsNumber c r = true) (h : digits (c :: r) = .ok (t, f)) :
    t ≠ [] := by
  obtain ⟨t', ht', rfl⟩ := extend_eq_ok.mp h
  by_cases hmark : (baseMark (c :: r)).1 = []
  · rw [hmark, baseMark_bare hmark, List.length_nil, List.drop_zero] at ht'
    rw [hmark, List.nil_append]
    by_cases hdigit : isMantissaDigit ⟨false, true⟩ c = true
    · rw [mantissa_digit hdigit] at ht'
      obtain ⟨u, -, rfl⟩ := extend_eq_ok.mp ht'
      exact List.cons_ne_nil _ _
    · have hpoint : (c == '.' && !false && true) = true := by
        have hnot : c.isDigit = false := by
          cases hd : c.isDigit with
          | false => rfl
          | true => exact absurd (by simp [isMantissaDigit, hd]) hdigit
        rw [Piece.startsNumber, hnot, Bool.false_or, Bool.and_eq_true] at hc
        rw [hc.1]
        rfl
      rw [mantissa_point hdigit hpoint] at ht'
      obtain ⟨u, -, rfl⟩ := extend_eq_ok.mp ht'
      exact List.cons_ne_nil _ _
  · exact List.append_ne_nil_of_left_ne_nil hmark _

theorem read_ne_nil (hc : Piece.startsNumber c r = true) (h : read (c :: r) = .ok (cls, t)) :
    t ≠ [] := by
  rw [read_eq] at h
  cases hd : digits (c :: r) with
  | error e =>
    rw [hd] at h
    cases h
  | ok p =>
    obtain ⟨ds, fractional⟩ := p
    rw [hd] at h
    simp only [Except.bind, judge] at h
    split at h
    · cases h
    split at h
    · cases h
    split at h
    · cases h
    cases h
    exact List.append_ne_nil_of_left_ne_nil (digits_ne_nil hc hd) _

end Number

namespace Piece

variable {c : Char} {r cs : List Char} {p : Piece} {ps : List Piece}

theorem text_ne_nil_of_first (h : first c r = .ok p) : p.text ≠ [] := by
  by_cases hnumber : startsNumber c r = true
  · cases begins_of_first h with
    | number text => exact Number.read_ne_nil hnumber text
    | word text => exact text ▸ List.cons_ne_nil _ _
    | symbol => exact Symbol.chars_ne_nil _
    | _ => exact List.cons_ne_nil _ _
  · unfold first quoted at h
    rw [if_neg hnumber] at h
    repeat' split at h
    all_goals cases h
    all_goals first | exact List.cons_ne_nil _ _ | exact Symbol.chars_ne_nil _

/-- A piece takes at least one character. -/
theorem text_of_first (h : first c r = .ok p) : ∃ t, p.text = c :: t ∧ t <+: r := by
  have hpre := first_front h
  cases ht : p.text with
  | nil => exact absurd ht (text_ne_nil_of_first h)
  | cons d t =>
    rw [ht] at hpre
    obtain ⟨rfl, htail⟩ := List.cons_prefix_cons.mp hpre
    exact ⟨t, rfl, htail⟩

/-- The pieces of a source make it up, and each of them is cut from the front of what it and those
behind it make up. -/
theorem fronts_of_cut (h : cut cs = .ok ps) : Fronts [] ps ∧ ps.flatMap text = cs := by
  induction cs using cut.induct generalizing ps with
  | case1 =>
    rw [cut] at h
    cases h
    exact ⟨trivial, rfl⟩
  | case2 c r e hf =>
    obtain ⟨p, ps', hf', -⟩ := cut_cons h
    rw [hf] at hf'
    cases hf'
  | case3 c r p hf ps' hc ih =>
    obtain ⟨p', ps'', hf', hc', rfl⟩ := cut_cons h
    cases hf.symm.trans hf'
    obtain ⟨hfronts, htext⟩ := ih hc'
    obtain ⟨t, ht, u, rfl⟩ := text_of_first hf
    rw [ht, List.length_cons, Nat.add_sub_cancel, List.drop_left] at htext
    refine ⟨⟨⟨c, t, ht, ?_⟩, hfronts⟩, ?_⟩
    · rw [htext, List.append_nil]
      exact hf
    · rw [List.flatMap_cons, ht, htext, List.cons_append]
  | case4 c r p hf ps' e hc ih =>
    obtain ⟨p', ps'', hf', hc', rfl⟩ := cut_cons h
    cases hf.symm.trans hf'
    rw [hc] at hc'
    cases hc'

end Piece

end GoRepl
