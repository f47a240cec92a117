import GoRepl.Proofs.Token.FirstKind
import GoRepl.Proofs.Token.Pieces

/-! # What stands between the tokens

Between two tokens stand blanks, line ends and comments.  A statement that may end does so at the
first line end; a comment over several lines ends it where the comment starts.

* `IsBlockComment`: a comment with its closing mark.
* `Filler`, `Gap`: one of the texts between two tokens, and all of them.
* `EndsLine`: where a line ends.
* `Kind.spelling`: how a token is written.
* `Piece.filler_of_first`, `Piece.endsLine_of_first`, `Piece.spelling_of_first`: what the pieces of
  a source are in these terms.
-/

namespace GoRepl

/-- A comment between `/*` and the first `*/` behind it. -/
def IsBlockComment (t : List Char) : Prop :=
  ∃ body, t = '/' :: '*' :: (body ++ ['*', '/']) ∧ ¬['*', '/'] <:+: body ++ ['*']

/-- A blank, a line end or a comment, with `rest` behind it. -/
inductive Filler (rest : List Char) : List Char → Prop
  | blank {c : Char} (blank : c ∈ [' ', '\t', '\r', '\n']) : Filler rest [c]
  | lineComment {body : List Char} (line : '\n' ∉ body) (closed : ∀ c ∈ rest.head?, c = '\n') :
      Filler rest ('/' :: '/' :: body)
  | blockComment {t : List Char} (comment : IsBlockComment t) : Filler rest t

/-- Blanks, line ends and comments, with `next` behind them. -/
inductive Gap (next : List Char) : List Char → Prop
  | nil : Gap next []
  | cons {t r : List Char} (head : Filler (r ++ next) t) (tail : Gap next r) : Gap next (t ++ r)

/-- A line ends at the front of the text: at the end of the source, at a line feed, or at a comment
that runs over one. -/
def EndsLine (rest : List Char) : Prop :=
  rest = [] ∨ (∃ r, rest = '\n' :: r) ∨ ∃ t r, rest = t ++ r ∧ IsBlockComment t ∧ '\n' ∈ t

namespace Kind

/-- The kind of a token that stands in the source. -/
def isWritten : Kind → Bool
  | newline | eof => false
  | _ => true

/-- How the token is written; nothing for a semicolon at a line end and for the end mark. -/
def spelling : Kind → String
  | literal _ text => text
  | name text => text
  | keyword k => k.spelling
  | symbol s => s.spelling
  | newline | eof => ""

theorem spelling_ofWord (word : String) : (ofWord word).spelling = word := by
  unfold ofWord
  split
  · exact Keyword.spelling_of_ofString? ‹_›
  · rfl

theorem isWritten_ofWord (word : String) : (ofWord word).isWritten = true := by
  unfold ofWord
  split <;> rfl

end Kind

namespace Piece

variable {c : Char} {r t rest : List Char} {kind : Kind} {p : Piece}

/-! ## Comments -/

/-- The closing mark is the first one. -/
theorem exists_body_of_throughCommentEnd (h : throughCommentEnd r = some t) :
    ∃ body, t = body ++ ['*', '/'] ∧ ¬['*', '/'] <:+: body ++ ['*'] := by
  induction r using throughCommentEnd.induct generalizing t with
  | case1 r =>
    rw [throughCommentEnd] at h
    cases h
    exact ⟨[], rfl, by decide⟩
  | case2 d r hd ih =>
    rw [throughCommentEnd.eq_2 d r hd] at h
    obtain ⟨u, hu, rfl⟩ := Option.map_eq_some_iff.mp h
    obtain ⟨body, rfl, hbody⟩ := ih hu
    refine ⟨d :: body, rfl, ?_⟩
    rw [List.cons_append, List.infix_cons_iff]
    rintro (hpre | hin)
    · -- a mark at the front is none, because the text is read from a source without one there
      obtain ⟨rfl, hslash⟩ := List.cons_prefix_cons.mp hpre
      cases body with
      | nil => simp at hslash
      | cons e body =>
        obtain ⟨rfl, -⟩ := List.cons_prefix_cons.mp hslash
        obtain ⟨v, rfl⟩ := (throughCommentEnd_front hu).1
        exact hd _ rfl rfl
    · exact hbody hin
  | case3 =>
    rw [throughCommentEnd] at h
    cases h

theorem isBlockComment_of_first (h : first c r = .ok (blockComment t)) : IsBlockComment t := by
  generalize hp : blockComment t = p at h
  cases begins_of_first h with
  | blockComment mark close =>
    cases hp
    obtain ⟨body, rfl, hbody⟩ := exists_body_of_throughCommentEnd close
    exact ⟨body, rfl, hbody⟩
  | _ => cases hp

/-- Nothing but a blank is read as one. -/
theorem blank_of_first {d : Char} (h : first c r = .ok (blank d)) :
    d ∈ [' ', '\t', '\r'] := by
  unfold first quoted at h
  by_cases hnewline : c = '\n'
  · rw [if_pos hnewline] at h
    cases h
  rw [if_neg hnewline] at h
  by_cases hblank : c = ' ' ∨ c = '\t' ∨ c = '\r'
  · rw [if_pos hblank] at h
    cases h
    simpa using hblank
  rw [if_neg hblank] at h
  repeat' split at h
  all_goals cases h

/-- A line comment goes on to the end of the line. -/
theorem filler_lineComment (h : first c r = .ok (lineComment (c :: t))) (hr : r = t ++ rest) :
    Filler rest (c :: t) := by
  obtain ⟨rfl, hhead⟩ := head?_of_lineComment h
  rw [first_lineComment hhead] at h
  have ht : r.takeWhile (· ≠ '\n') = t := by
    injection h with h
    injection h with h
    exact (List.cons.inj h).2
  have hclosed : ∀ d ∈ rest.head?, d = '\n' := by
    intro d hd
    have hdrop : r.dropWhile (· ≠ '\n') = rest := by
      have happend : r.takeWhile (· ≠ '\n') ++ r.dropWhile (· ≠ '\n') = r :=
        List.takeWhile_append_dropWhile
      rw [ht, hr] at happend
      exact hr ▸ List.append_cancel_left happend
    have hnot := List.head?_dropWhile_not (· ≠ '\n') r
    rw [hdrop, hd] at hnot
    simpa using hnot
  cases r with
  | nil => cases hhead
  | cons d r =>
    cases hhead
    rw [List.takeWhile_cons_of_pos (by decide)] at ht
    subst ht
    exact .lineComment (fun hn => by simpa using List.mem_takeWhile_imp hn) hclosed

theorem newline_not_mem_of_lineComment (h : first c r = .ok (lineComment t)) : '\n' ∉ t := by
  obtain ⟨rfl, hhead⟩ := head?_of_lineComment h
  rw [first_lineComment hhead] at h
  cases h
  rintro (_ | ⟨_, hn⟩)
  simpa using List.mem_takeWhile_imp hn

/-! ## The first piece -/

/-- A piece that is no token is a blank, a line end or a comment. -/
theorem filler_of_first (h : first c r = .ok p) (hp : p.kind? = none) (ht : p.text = c :: t)
    (hr : r = t ++ rest) : Filler rest p.text := by
  cases p with
  | newline => exact .blank (by decide)
  | blank d => exact .blank (List.mem_append_left ['\n'] (blank_of_first h))
  | lineComment text =>
    cases ht
    exact filler_lineComment h hr
  | blockComment text => exact .blockComment (isBlockComment_of_first h)
  | written kind text => cases hp

/-- A line end, or a comment over one, ends the line. -/
theorem endsLine_of_first (h : first c r = .ok p) (hp : p.kind? = none) (hn : '\n' ∈ p.text) :
    EndsLine (p.text ++ rest) := by
  cases p with
  | newline => exact .inr (.inl ⟨rest, rfl⟩)
  | blank d =>
    obtain rfl : '\n' = d := by simpa [text] using hn
    exact absurd (blank_of_first h) (by decide)
  | lineComment u => exact absurd hn (newline_not_mem_of_lineComment h)
  | blockComment u => exact .inr (.inr ⟨u, rest, rfl, isBlockComment_of_first h, hn⟩)
  | written kind u => cases hp

/-- A token has the text that it stands for. -/
theorem spelling_of_first (h : first c r = .ok (written kind t)) :
    kind.spelling = String.ofList t ∧ kind.isWritten = true := by
  generalize hp : written kind t = p at h
  cases begins_of_first h with
  | quoted | raw | number | symbol =>
    cases hp
    exact ⟨rfl, rfl⟩
  | word =>
    cases hp
    exact ⟨Kind.spelling_ofWord _, Kind.isWritten_ofWord _⟩
  | _ => cases hp

end Piece

end GoRepl
