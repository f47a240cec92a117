import GoRepl.Proofs.Source.Position
import GoRepl.Proofs.Text.Lines
import GoRepl.Proofs.Token.Pieces

/-! # The tokens of two joined sources

What is read from a source does not depend on what follows on the next line, and reading starts
afresh there.  So the tokens of two sources that a line end joins are those of the first one without
its end mark, and those of the second one further on.

* `Piece.first_line`, `Piece.fronts_line`: the pieces of a source with a line end behind it.
* `Token.shift`, `Token.place_shift`: tokens some bytes and lines further on.
* `Token.place_line`: the tokens of pieces around a line end.
* `Token.ofSource_joined`: the tokens of two joined sources, or the fault in the second one.
-/

namespace GoRepl

/-! ## Pieces -/

namespace Piece

variable {c : Char} {x t : List Char} {p : Piece} {ps : List Piece}

theorem throughBackQuote_append (h : throughBackQuote x = some t) (y : List Char) :
    throughBackQuote (x ++ y) = some t := by
  induction x generalizing t with
  | nil => cases h
  | cons c x ih =>
    by_cases hc : c = '\x60'
    · rw [throughBackQuote, if_pos hc] at h
      rw [List.cons_append, throughBackQuote, if_pos hc, h]
    · rw [throughBackQuote_cons hc] at h
      obtain ⟨t', ht, rfl⟩ := Option.map_eq_some_iff.mp h
      rw [List.cons_append, throughBackQuote_cons hc, ih ht, Option.map_some]

theorem throughCommentEnd_append (h : throughCommentEnd x = some t) (y : List Char) :
    throughCommentEnd (x ++ y) = some t := by
  induction x using throughCommentEnd.induct generalizing t with
  | case1 r =>
    rw [throughCommentEnd] at h
    rw [List.cons_append, List.cons_append, throughCommentEnd, h]
  | case2 c r hc ih =>
    rw [throughCommentEnd.eq_2 c r hc] at h
    obtain ⟨t', ht, rfl⟩ := Option.map_eq_some_iff.mp h
    have hhead : c = '*' → (r ++ y).head? ≠ some '/' := by
      rintro rfl hslash
      cases r with
      | nil => cases ht
      | cons d r =>
        cases hslash
        exact hc r rfl rfl
    rw [List.cons_append, throughCommentEnd_cons hhead, ih ht, Option.map_some]
  | case3 =>
    rw [throughCommentEnd] at h
    cases h

/-- The first piece of a source does not depend on what follows on the next line. -/
theorem first_line (h : first c x = .ok p) (q : List Char) : first c (x ++ '\n' :: q) = .ok p := by
  have hhead : ∀ {d}, x.head? = some d → (x ++ '\n' :: q).head? = some d := by
    intro d hd
    rw [List.head?_append, hd]
    rfl
  by_cases hline : c = '/' ∧ x.head? = some '/'
  · obtain ⟨rfl, hslash⟩ := hline
    rw [first_lineComment hslash] at h
    rw [first_lineComment (hhead hslash), Text.takeWhile_line, h]
  by_cases hblock : c = '/' ∧ x.head? = some '*'
  · obtain ⟨rfl, hstar⟩ := hblock
    obtain ⟨t, ht, rfl⟩ := (first_blockComment hstar).mp h
    refine (first_blockComment (hhead hstar)).mpr ⟨t, ?_, rfl⟩
    cases x with
    | nil => cases hstar
    | cons d x => exact throughCommentEnd_append ht _
  by_cases hraw : c = '\x60'
  · subst hraw
    obtain ⟨t, ht, rfl⟩ := first_raw.mp h
    exact first_raw.mpr ⟨t, throughBackQuote_append ht _, rfl⟩
  · rw [first_append (.feed q) hline hblock hraw, h]

theorem fronts_line {z : List Char} (h : Fronts z ps) (q : List Char) :
    Fronts (z ++ '\n' :: q) ps := by
  induction ps with
  | nil => trivial
  | cons p ps ih =>
    obtain ⟨⟨c, t, ht, hf⟩, hrest⟩ := h
    have hline := first_line hf q
    rw [List.append_assoc, List.append_assoc] at hline
    exact ⟨⟨c, t, ht, hline⟩, ih hrest⟩

/-- The pieces of a source, the line end and the pieces behind it. -/
theorem cut_line (h : cut x = .ok ps) (q : List Char) :
    cut (x ++ '\n' :: q) = behind (ps ++ [newline]) (cut q) := by
  obtain ⟨hfronts, rfl⟩ := fronts_of_cut h
  have hfronts' : Fronts ('\n' :: q) ps := fronts_line hfronts q
  rw [cut_fronts hfronts', cut_eq_behind (p := newline) rfl, behind_behind]
  rfl

end Piece

/-! ## Tokens -/

/-- The error some lines further on. -/
def LexError.shift (lines : Nat) (e : LexError) : LexError where
  fault := e.fault
  line := e.line + lines
  col := e.col

namespace Token

open Position

/-- The token some bytes and lines further on, in the same column. -/
def shift (bytes lines : Nat) (t : Token) : Token := ⟨t.kind, t.span.shift bytes lines⟩

variable {bytes lines : Nat}

theorem inserted_shift (ends : Bool) (p : Position) :
    inserted ends (p.shift bytes lines) = (inserted ends p).map (shift bytes lines) := by
  cases ends <;> rfl

theorem place_shift (p : Position) (ends : Bool) (ps : List Piece) :
    place (p.shift bytes lines) ends ps = (place p ends ps).map (shift bytes lines) := by
  induction ps generalizing p ends with
  | nil =>
    rw [place, place, List.map_append, inserted_shift]
    rfl
  | cons piece ps ih =>
    cases piece with
    | newline => rw [place, place, List.map_append, inserted_shift, next_shift, ih]
    | blank c => rw [place, place, next_shift, ih]
    | lineComment text => rw [place, place, after_shift, ih]
    | written kind text =>
      rw [place, place, List.map_cons, after_shift, ih, Span.reading_shift]
      rfl
    | blockComment text =>
      rw [place, place]
      split
      · rw [List.map_append, inserted_shift, after_shift, ih]
      · rw [after_shift, ih]

theorem place_ne_nil (p : Position) (ends : Bool) (ps : List Piece) : place p ends ps ≠ [] := by
  intro h
  have hkinds := kinds_place p ends ps
  rw [h, Piece.kinds_eq_front] at hkinds
  simp at hkinds

/-- The tokens of pieces in front of a line end, without the end mark, and those behind it. -/
theorem place_line (p : Position) (ends : Bool) (ps qs : List Piece) :
    place p ends (ps ++ .newline :: qs) = (place p ends ps).dropLast ++
      place (p.after (ps.flatMap Piece.text ++ ['\n'])) false qs := by
  induction ps generalizing p ends with
  | nil =>
    -- the semicolon at the end of the source is the one at the line end
    rw [List.nil_append, place, place, List.dropLast_concat]
    rfl
  | cons piece ps ih =>
    rw [List.cons_append, List.flatMap_cons, List.append_assoc, after_append]
    cases piece with
    | newline =>
      rw [place, place, ih, List.dropLast_append_of_ne_nil (place_ne_nil _ _ _), List.append_assoc]
      rfl
    | blank c => exact ih ..
    | lineComment text => exact ih ..
    | written kind text =>
      rw [place, place, ih, List.dropLast_cons_of_ne_nil (place_ne_nil _ _ _)]
      rfl
    | blockComment text =>
      rw [place, place]
      split
      · rw [ih, List.dropLast_append_of_ne_nil (place_ne_nil _ _ _), List.append_assoc]
        rfl
      · exact ih ..

theorem toList_line (p q : String) : (p ++ "\n" ++ q).toList = p.toList ++ '\n' :: q.toList := by
  simp [String.toList_append]

/-- The tokens of a source and of another one on the lines behind it. -/
theorem ofSource_joined {p : String} {ts : List Token} (h : ofSource p = .ok ts) (q : String) :
    ∃ front mark, ts = front ++ [mark] ∧ mark.kind = .eof ∧
      ofSource (p ++ "\n" ++ q) =
        match ofSource q with
        | .ok us =>
          .ok (front ++ us.map (shift (p.utf8ByteSize + 1) (1 + p.toList.count '\n')))
        | .error e => .error (e.shift (1 + p.toList.count '\n')) := by
  obtain ⟨front, mark, rfl, hmark, -⟩ := ofSource_eof h
  obtain ⟨ps, hcut, hplace⟩ := ofSource_eq_ok.mp h
  have htext := (Piece.fronts_of_cut hcut).2
  have hsize : String.utf8Len p.toList = p.utf8ByteSize := by
    rw [← String.utf8ByteSize_ofList, String.ofList_toList]
  have hstart := after_line p.toList
  rw [hsize] at hstart
  refine ⟨front, mark, rfl, hmark, ?_⟩
  unfold ofSource
  rw [toList_line, Piece.cut_line hcut]
  cases Piece.cut q.toList with
  | ok qs =>
    simp only [Piece.behind, List.append_assoc, List.singleton_append]
    rw [place_line, hplace, htext, hstart, place_shift, List.dropLast_concat]
  | error e =>
    obtain ⟨qs, fault⟩ := e
    have htexts : (ps ++ [Piece.newline] ++ qs).flatMap Piece.text =
        p.toList ++ ['\n'] ++ qs.flatMap Piece.text := by
      rw [List.flatMap_append, List.flatMap_append, htext]
      rfl
    simp only [Piece.behind, htexts]
    rw [after_append, hstart, after_shift]
    rfl

theorem ofSource_joined_fault :
    let p := "f(`é\n`) // g"
    let q := "x\n\"y"
    let ts : List Token := [⟨.name "f", 0, 1, 1, 1⟩, ⟨.symbol .lparen, 1, 2, 1, 2⟩,
      ⟨.literal .string "`é\n`", 2, 7, 1, 3⟩, ⟨.symbol .rparen, 7, 8, 2, 2⟩,
      ⟨.newline, 13, 13, 2, 8⟩, ⟨.eof, 13, 13, 2, 8⟩]
    ofSource p = .ok ts ∧ ∃ front mark, ts = front ++ [mark] ∧ mark.kind = .eof ∧
      ofSource (p ++ "\n" ++ q) =
        match ofSource q with
        | .ok us =>
          .ok (front ++ us.map (shift (p.utf8ByteSize + 1) (1 + p.toList.count '\n')))
        | .error e => .error (e.shift (1 + p.toList.count '\n')) := by
  intro p q ts
  have htokens : ofSource p = .ok ts := by decide +kernel
  exact ⟨htokens, ofSource_joined htokens q⟩

end Token

end GoRepl
