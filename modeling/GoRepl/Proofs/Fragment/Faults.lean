import GoRepl.Fragment.Framing
import GoRepl.Fragment.Shape
import GoRepl.Proofs.Token.Joined
import GoRepl.Proofs.Token.Trimmed

/-! # Faults and later lines

A text with a fault in it goes on only if the fault is an open raw string or comment.  This is
exact: the next lines can close these two, and every other fault stays where it is, whatever
follows.

* `Piece.cut_eq_error`: the pieces before a fault, and the source at the fault.
* `Piece.cut_fault`, `Piece.cut_closed`: the pieces of a source with a fault and lines behind it.
* `Piece.cut_blank_append`, `Piece.cut_append_blank`: a fault without the blank ends of a source.
* `Token.ofSource_fault`, `Token.ofSource_closed`: the same for tokens.
* `Framing.needsMore_iff_closable`: whether a text with a fault goes on.
* `Framing.fault_stays`: nothing is lost when it does not.
-/

namespace GoRepl

/-- The fault is a blank character. -/
def LexFault.isBlank : LexFault → Bool
  | unexpectedChar c => Text.isBlank c
  | _ => false

/-! ## Pieces before a fault -/

namespace Piece

variable {c : Char} {r x : List Char} {p : Piece} {ps : List Piece} {e : LexFault}

theorem cut_of_first_error (h : first c r = .error e) : cut (c :: r) = .error ([], e) := by
  rw [cut]
  simp only [h]

theorem behind_eq_error {qs : List Piece} {result : Except (List Piece × LexFault) (List Piece)} :
    behind ps result = .error (qs, e) ↔ ∃ qs', result = .error (qs', e) ∧ qs = ps ++ qs' := by
  rcases result with ⟨qs', e'⟩ | qs'
  · simp only [behind, Except.error.injEq, Prod.mk.injEq]
    constructor
    · rintro ⟨rfl, rfl⟩
      exact ⟨qs', ⟨rfl, rfl⟩, rfl⟩
    · rintro ⟨_, ⟨rfl, rfl⟩, rfl⟩
      exact ⟨rfl, rfl⟩
  · simp [behind]

/-- A source with a fault is made up of the pieces before it and of what no piece is at the front
of. -/
theorem cut_eq_error : cut x = .error (ps, e) ↔
    ∃ c r, x = ps.flatMap text ++ c :: r ∧ Fronts (c :: r) ps ∧ first c r = .error e := by
  constructor
  · intro h
    induction x using cut.induct generalizing ps with
    | case1 =>
      rw [cut] at h
      cases h
    | case2 c r e' hf =>
      rw [cut_of_first_error hf] at h
      cases h
      exact ⟨c, r, rfl, trivial, hf⟩
    | case3 c r p hf ps' hc ih =>
      rw [cut_of_first hf hc] at h
      cases h
    | case4 c r p hf ps' e' hc ih =>
      rw [cut_eq_behind hf] at h
      obtain ⟨qs, hqs, rfl⟩ := behind_eq_error.mp h
      obtain ⟨d, z, htail, hfronts, hfault⟩ := ih hqs
      obtain ⟨t, ht, u, rfl⟩ := text_of_first hf
      rw [ht, List.length_cons, Nat.add_sub_cancel, List.drop_left] at htail
      refine ⟨d, z, ?_, ⟨⟨c, t, ht, ?_⟩, hfronts⟩, hfault⟩
      · rw [List.singleton_append, List.flatMap_cons, ht, htail, List.cons_append,
          List.cons_append, List.append_assoc]
      · rw [htail] at hf
        exact hf
  · rintro ⟨c, r, rfl, hfronts, hfault⟩
    rw [cut_fronts hfronts, cut_of_first_error hfault, behind, List.append_nil]

/-! ## Lines behind a fault -/

theorem first_blockComment_error (mark : r.head? = some '*') :
    first '/' r = .error e ↔ throughCommentEnd r.tail = none ∧ e = .unterminatedComment := by
  rw [first_blockComment_eq mark]
  cases throughCommentEnd r.tail with
  | none => simp [eq_comm]
  | some t => simp

theorem first_raw_error : first '\x60' r = .error e ↔
    throughBackQuote r = none ∧ e = .unterminatedRawString := by
  rw [first_raw_eq, quoted.eq_def]
  cases throughBackQuote r with
  | none => simp [eq_comm]
  | some t => simp

/-- A fault at the front of a source is an open comment, an open raw string, or one that does not
depend on what follows on the next line. -/
theorem first_error_cases (h : first c r = .error e) :
    (c = '/' ∧ r.head? = some '*' ∧ throughCommentEnd r.tail = none ∧ e = .unterminatedComment) ∨
    (c = '\x60' ∧ throughBackQuote r = none ∧ e = .unterminatedRawString) ∨
    (e.isOpen = false ∧ ∀ q, first c (r ++ '\n' :: q) = .error e) := by
  by_cases hline : c = '/' ∧ r.head? = some '/'
  · obtain ⟨rfl, mark⟩ := hline
    rw [first_lineComment mark] at h
    cases h
  by_cases hblock : c = '/' ∧ r.head? = some '*'
  · obtain ⟨rfl, mark⟩ := hblock
    obtain ⟨hnone, rfl⟩ := (first_blockComment_error mark).mp h
    exact .inl ⟨rfl, mark, hnone, rfl⟩
  by_cases hraw : c = '\x60'
  · subst hraw
    obtain ⟨hnone, rfl⟩ := first_raw_error.mp h
    exact .inr (.inl ⟨rfl, hnone, rfl⟩)
  refine .inr (.inr ⟨?_, fun q => (first_append (.feed q) hline hblock hraw).trans h⟩)
  unfold first quoted at h
  rw [if_neg hline, if_neg hblock, if_neg hraw] at h
  repeat' split at h
  all_goals cases h
  all_goals rfl

/-- A fault that is not open stays where it is, whatever follows on the next line. -/
theorem cut_fault (h : cut x = .error (ps, e)) (he : e.isOpen = false) (q : List Char) :
    cut (x ++ '\n' :: q) = .error (ps, e) := by
  obtain ⟨c, r, rfl, hfronts, hfault⟩ := cut_eq_error.mp h
  refine cut_eq_error.mpr ⟨c, r ++ '\n' :: q, List.append_assoc .., fronts_line hfronts q, ?_⟩
  obtain ⟨-, -, -, rfl⟩ | ⟨-, -, rfl⟩ | ⟨-, hstays⟩ := first_error_cases hfault
  · cases he
  · cases he
  · exact hstays q

/-! ## Open comments and raw strings -/

theorem throughCommentEnd_closed (h : throughCommentEnd x = none) :
    throughCommentEnd (x ++ ['\n', '*', '/']) = some (x ++ ['\n', '*', '/']) := by
  induction x using throughCommentEnd.induct with
  | case1 r =>
    rw [throughCommentEnd] at h
    cases h
  | case2 c r hc ih =>
    rw [throughCommentEnd.eq_2 c r hc, Option.map_eq_none_iff] at h
    have hhead : c = '*' → (r ++ ['\n', '*', '/']).head? ≠ some '/' := by
      rintro rfl hslash
      cases r with
      | nil => cases hslash
      | cons d r =>
        cases hslash
        exact hc r rfl rfl
    rw [List.cons_append, throughCommentEnd_cons hhead, ih h, Option.map_some]
  | case3 => rfl

theorem throughBackQuote_closed (h : throughBackQuote x = none) :
    throughBackQuote (x ++ ['\n', '\x60']) = some (x ++ ['\n', '\x60']) := by
  induction x with
  | nil => rfl
  | cons c x ih =>
    have hc : c ≠ '\x60' := by
      rintro rfl
      cases h
    rw [throughBackQuote_cons hc, Option.map_eq_none_iff] at h
    rw [List.cons_append, throughBackQuote_cons hc, ih h, Option.map_some]

/-- A source that is one piece. -/
theorem cut_whole (h : first c r = .ok p) (ht : p.text = c :: r) : cut (c :: r) = .ok [p] := by
  refine cut_of_first h ?_
  rw [ht, List.length_cons, Nat.add_sub_cancel, List.drop_length, cut]

/-- An open comment or raw string can be closed on the next line. -/
theorem cut_closed (h : cut x = .error (ps, e)) (he : e.isOpen = true) :
    ∃ q qs, cut (x ++ '\n' :: q) = .ok qs := by
  obtain ⟨c, r, rfl, hfronts, hfault⟩ := cut_eq_error.mp h
  obtain ⟨q, p, hp, ht⟩ : ∃ q p, first c (r ++ '\n' :: q) = .ok p ∧
      p.text = c :: (r ++ '\n' :: q) := by
    obtain ⟨rfl, mark, hnone, -⟩ | ⟨rfl, hnone, -⟩ | ⟨hstays, -⟩ := first_error_cases hfault
    · cases r with
      | nil => cases mark
      | cons d r =>
        cases mark
        exact ⟨['*', '/'], _,
          (first_blockComment rfl).mpr ⟨_, throughCommentEnd_closed hnone, rfl⟩, rfl⟩
    · exact ⟨['\x60'], _, first_raw.mpr ⟨_, throughBackQuote_closed hnone, rfl⟩, rfl⟩
    · rw [hstays] at he
      cases he
  have hfronts' : Fronts (c :: (r ++ '\n' :: q)) ps := fronts_line hfronts q
  refine ⟨q, ps ++ [p], ?_⟩
  rw [List.append_assoc, List.cons_append, cut_fronts hfronts', cut_whole hp ht, behind]

/-! ## Blank ends -/

theorem cut_blank_append {a : List Char} (ha : ∀ c ∈ a, Text.isBlank c = true)
    (he : e.isBlank = false) (h : cut (a ++ x) = .error (ps, e)) : ∃ qs, cut x = .error (qs, e) := by
  induction a generalizing ps with
  | nil => exact ⟨ps, h⟩
  | cons c a ih =>
    obtain ⟨hc, ha⟩ := List.forall_mem_cons.mp ha
    rw [List.cons_append] at h
    -- the first blank character is a piece of its own, or the fault
    obtain hf | hf | hf := first_blank_cases (r := a ++ x) hc
    · rw [cut_eq_behind hf] at h
      obtain ⟨qs, hqs, -⟩ := behind_eq_error.mp h
      exact ih ha hqs
    · rw [cut_eq_behind hf] at h
      obtain ⟨qs, hqs, -⟩ := behind_eq_error.mp h
      exact ih ha hqs
    · rw [cut_of_first_error hf] at h
      cases h
      rw [LexFault.isBlank, hc] at he
      cases he

/-- A blank text has no other fault than a blank character. -/
theorem isBlank_of_cut_blank {b : List Char} (hb : ∀ c ∈ b, Text.isBlank c = true)
    (h : cut b = .error (ps, e)) : e.isBlank = true := by
  cases he : e.isBlank with
  | true => rfl
  | false =>
    rw [← List.append_nil b] at h
    obtain ⟨qs, hqs⟩ := cut_blank_append hb he h
    rw [cut] at hqs
    cases hqs

theorem cut_append_blank {b : List Char} (hb : ∀ c ∈ b, Text.isBlank c = true)
    (he : e.isBlank = false) (h : cut (x ++ b) = .error (ps, e)) : ∃ qs, cut x = .error (qs, e) := by
  have hinert := inert_of_blank hb
  -- a line comment at the end of the source leaves blank characters only
  have hcomment : ∀ {r : List Char} {qs : List Piece}, r.head? = some '/' → '\n' ∉ r →
      cut ('/' :: (r ++ b)) ≠ .error (qs, e) := by
    intro r qs hhead hn hcut
    obtain ⟨y, z, rfl, hy, hz⟩ := exists_lineFeed b
    obtain ⟨hfirst, hrest⟩ := first_extendedComment hhead hn hy hz
    rw [cut_eq_behind hfirst, hrest] at hcut
    obtain ⟨qs', hqs, -⟩ := behind_eq_error.mp hcut
    have hblank := isBlank_of_cut_blank (fun c hc => hb c (List.mem_append_right y hc)) hqs
    rw [he] at hblank
    cases hblank
  induction x using cut.induct generalizing ps with
  | case1 =>
    rw [isBlank_of_cut_blank hb h] at he
    cases he
  | case2 c r e' hf =>
    obtain hsame | ⟨rfl, hhead, hn⟩ := first_inert_cases (c := c) (x := r) hinert
    · rw [List.cons_append, cut_of_first_error (hsame.trans hf)] at h
      cases h
      exact ⟨[], cut_of_first_error hf⟩
    · exact absurd h (hcomment hhead hn)
  | case3 c r p hf ps' hc ih =>
    obtain hsame | ⟨rfl, hhead, hn⟩ := first_inert_cases (c := c) (x := r) hinert
    · rw [List.cons_append, cut_eq_behind (hsame.trans hf), drop_append_of_first hf] at h
      obtain ⟨qs, hqs, -⟩ := behind_eq_error.mp h
      obtain ⟨qs', hqs'⟩ := ih hqs
      rw [hc] at hqs'
      cases hqs'
    · exact absurd h (hcomment hhead hn)
  | case4 c r p hf ps' e' hc ih =>
    obtain hsame | ⟨rfl, hhead, hn⟩ := first_inert_cases (c := c) (x := r) hinert
    · rw [List.cons_append, cut_eq_behind (hsame.trans hf), drop_append_of_first hf] at h
      obtain ⟨qs, hqs, -⟩ := behind_eq_error.mp h
      obtain ⟨qs', hqs'⟩ := ih hqs
      refine ⟨p :: qs', ?_⟩
      rw [cut_eq_behind hf, hqs']
      rfl
    · exact absurd h (hcomment hhead hn)

end Piece

/-! ## Tokens of a source with a fault -/

namespace Token

variable {source : String} {e : LexError}

theorem ofSource_eq_error : ofSource source = .error e ↔
    ∃ ps, Piece.cut source.toList = .error (ps, e.fault) ∧
      e.line = (Position.after {} (ps.flatMap Piece.text)).line ∧
      e.col = (Position.after {} (ps.flatMap Piece.text)).col := by
  obtain ⟨fault, line, col⟩ := e
  unfold ofSource
  rcases Piece.cut source.toList with ⟨ps, fault'⟩ | ps
  · simp only [Except.error.injEq, LexError.mk.injEq, Prod.mk.injEq]
    constructor
    · rintro ⟨rfl, rfl, rfl⟩
      exact ⟨ps, ⟨rfl, rfl⟩, rfl, rfl⟩
    · rintro ⟨_, ⟨rfl, rfl⟩, rfl, rfl⟩
      exact ⟨rfl, rfl, rfl⟩
  · simp

/-- A fault that is not open stays where it is, whatever follows on the next line. -/
theorem ofSource_fault (h : ofSource source = .error e) (he : e.fault.isOpen = false)
    (q : String) : ofSource (source ++ "\n" ++ q) = .error e := by
  obtain ⟨ps, hcut, hplace⟩ := ofSource_eq_error.mp h
  refine ofSource_eq_error.mpr ⟨ps, ?_, hplace⟩
  rw [toList_line]
  exact Piece.cut_fault hcut he q.toList

/-- An open comment or raw string can be closed on the next line. -/
theorem ofSource_closed (h : ofSource source = .error e) (he : e.fault.isOpen = true) :
    ∃ q ts, ofSource (source ++ "\n" ++ q) = .ok ts := by
  obtain ⟨ps, hcut, -⟩ := ofSource_eq_error.mp h
  obtain ⟨q, qs, hq⟩ := Piece.cut_closed hcut he
  refine ⟨String.ofList q, place {} false qs, ofSource_eq_ok.mpr ⟨qs, ?_, rfl⟩⟩
  rw [toList_line, String.toList_ofList, hq]

/-- A trimmed source has the fault of the source, unless that is a blank character. -/
theorem ofSource_trim_error (h : ofSource source = .error e) (he : e.fault.isBlank = false) :
    ∃ e', e'.fault = e.fault ∧ ofSource (Text.trim source) = .error e' := by
  obtain ⟨ps, hcut, -⟩ := ofSource_eq_error.mp h
  obtain ⟨a, b, hs, ha, hb⟩ := Text.exists_trim source
  rw [hs, List.append_assoc] at hcut
  obtain ⟨qs, hqs⟩ := Piece.cut_blank_append ha he hcut
  obtain ⟨qs', hqs'⟩ := Piece.cut_append_blank hb he hqs
  let place := Position.after {} (qs'.flatMap Piece.text)
  exact ⟨⟨e.fault, place.line, place.col⟩, rfl, ofSource_eq_error.mpr ⟨qs', hqs', rfl, rfl⟩⟩

end Token

theorem Shape.ofSource_of_error {source : String} {e : LexError}
    (h : Token.ofSource source = .error e) : Shape.ofSource source = .error (.lexical e) := by
  unfold Shape.ofSource Shape.ofImport Shape.ofStatement Syntax.parseImports Syntax.parseFragment
    Syntax.ofSource
  rw [h]
  split <;> rfl

/-! ## Texts with a fault -/

namespace Framing

variable {p : String} {e : LexError}

theorem needsMore_of_error (h : Token.ofSource p = .error e) : needsMore p = e.fault.isOpen := by
  rw [needsMore, h]

/-- A text with a fault goes on exactly if there are next lines with which it has none. -/
theorem needsMore_iff_closable (h : Token.ofSource p = .error e) :
    needsMore p = true ↔ ∃ q ts, Token.ofSource (p ++ "\n" ++ q) = .ok ts := by
  rw [needsMore_of_error h]
  constructor
  · exact Token.ofSource_closed h
  · rintro ⟨q, ts, hts⟩
    cases he : e.fault.isOpen with
    | true => rfl
    | false =>
      rw [Token.ofSource_fault h he q] at hts
      cases hts

/-- A text with any other fault than an open raw string or comment does not go on, and nothing is
lost by that: with any lines behind it, it has the same fault in the same place, and is no fragment;
neither is it one without blank ends, unless the fault is a blank character. -/
theorem fault_stays (h : Token.ofSource p = .error e) (hraw : e.fault ≠ .unterminatedRawString)
    (hcomment : e.fault ≠ .unterminatedComment) :
    needsMore p = false ∧ ∀ q, Token.ofSource (p ++ "\n" ++ q) = .error e ∧
      Shape.ofSource (p ++ "\n" ++ q) = .error (.lexical e) ∧
      (e.fault.isBlank = false → ∃ e', e'.fault = e.fault ∧
        Shape.ofSource (Text.trim (p ++ "\n" ++ q)) = .error (.lexical e')) := by
  have hclosed : e.fault.isOpen = false := by
    cases hf : e.fault with
    | unterminatedRawString => exact absurd hf hraw
    | unterminatedComment => exact absurd hf hcomment
    | _ => rfl
  refine ⟨(needsMore_of_error h).trans hclosed, fun q => ?_⟩
  have hq := Token.ofSource_fault h hclosed q
  refine ⟨hq, Shape.ofSource_of_error hq, fun hs => ?_⟩
  obtain ⟨e', he, htrim⟩ := Token.ofSource_trim_error hq hs
  exact ⟨e', he, Shape.ofSource_of_error htrim⟩

theorem fault_stays_number :
    let p := "f(\x60a\n\x60, 1e+"
    let e : LexError := ⟨.invalidNumber "1e+", 2, 4⟩
    Token.ofSource p = .error e ∧ needsMore p = false ∧
      ∀ q, Token.ofSource (p ++ "\n" ++ q) = .error e ∧
        Shape.ofSource (p ++ "\n" ++ q) = .error (.lexical e) ∧ ∃ e', e'.fault = e.fault ∧
          Shape.ofSource (Text.trim (p ++ "\n" ++ q)) = .error (.lexical e') := by
  intro p e
  have h : Token.ofSource p = .error e := by decide +kernel
  obtain ⟨hmore, hstays⟩ := fault_stays h nofun nofun
  refine ⟨h, hmore, fun q => ?_⟩
  obtain ⟨hq, hshape, htrim⟩ := hstays q
  exact ⟨hq, hshape, htrim rfl⟩

/-- A blank character that is the fault is taken off a fragment. -/
example : Token.ofSource "\u00a0f(" = .error ⟨.unexpectedChar '\u00a0', 1, 1⟩ ∧
    Shape.ofSource (Text.trim ("\u00a0f(" ++ "\n" ++ ")")) = .ok (.expression .call) := by
  decide +kernel

end Framing

end GoRepl
