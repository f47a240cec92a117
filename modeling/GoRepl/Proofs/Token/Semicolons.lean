import GoRepl.Proofs.Token.Tiling

/-! # Semicolons at line ends

A line end behind a token that may end a statement ends it, and so does the end of the source: one
semicolon is inserted there, and nowhere else.

* `Token.FirstLineEnd`: where the first line end of a gap is.
* `Token.Separated`: the semicolons between a token and the next.
* `Token.separated_ofSource`: the semicolons of a source.
-/

namespace GoRepl

namespace Token

open Position

/-- What stands in front of the first line end: blanks and whole comments on one line, and behind
them a line ends. -/
def FirstLineEnd (lead rest : List Char) : Prop :=
  Gap rest lead ∧ '\n' ∉ lead ∧ EndsLine rest

/-- The tokens `mid` are what is inserted between token `t` and the next token `u`: if `t` may end
a statement, and a line end or the end of the source stands between them, one semicolon, in front
of the first line end; otherwise nothing. -/
def Separated (source : String) (t : Token) (mid : List Token) (u : Token) : Prop :=
  ∃ x gap z : String, source = x ++ gap ++ z ∧ t.span.stop = x.utf8ByteSize ∧
    u.span.start = (x ++ gap).utf8ByteSize ∧
    if t.kind.endsStatement = true ∧ ('\n' ∈ gap.toList ∨ u.kind = .eof) then
      ∃ m lead tail, mid = [m] ∧ m.kind = .newline ∧ gap = lead ++ tail ∧
        m.span.start = (x ++ lead).utf8ByteSize ∧ FirstLineEnd lead.toList (tail ++ z).toList
    else mid = []

variable {before rest : List Char} {ends : Bool} {ts us : List Token} {t : Token}

/-! ## The next token -/

/-- The first token of a text that is not an inserted semicolon, with the gap in front of it. -/
theorem Tiled.next (h : Tiled before ends rest ts) :
    ∃ gap next mid u us, rest = gap ++ next ∧ ts = mid ++ u :: us ∧
      u.span.start = String.utf8Len (before ++ gap) ∧ SemicolonIn before gap next ends mid ∧
      u.kind ≠ .newline ∧ (u.kind = .eof ↔ next = []) := by
  cases h with
  | finish _ semicolon =>
    exact ⟨rest, [], _, _, [], (List.append_nil _).symm, rfl, start_at _, semicolon, nofun,
      iff_of_true rfl rfl⟩
  | @token _ gap text rest _ _ _ kind _ semicolon _ written nonempty _ =>
    refine ⟨gap, text ++ rest, _, _, _, rfl, rfl, start_reading _ _, semicolon, ?_,
      iff_of_false ?_ (List.append_ne_nil_of_left_ne_nil nonempty _)⟩
    · rintro rfl
      cases written
    · rintro rfl
      cases written

theorem suffix_of_unwritten {semicolons : List Token}
    (hs : ∀ s ∈ semicolons, s.kind.isWritten = false) (ht : t.kind.isWritten = true)
    (h : t :: us <:+ semicolons ++ ts) : t :: us <:+ ts := by
  induction semicolons with
  | nil => exact h
  | cons s semicolons ih =>
    obtain ⟨hs, hrest⟩ := List.forall_mem_cons.mp hs
    rcases List.suffix_cons_iff.mp h with heq | h
    · rw [(List.cons.inj heq).1, hs] at ht
      cases ht
    · exact ih hrest h

/-- Behind a written token the text goes on where the token ends. -/
theorem Tiled.behind (h : Tiled before ends rest ts) (ht : t.kind.isWritten = true)
    (hus : t :: us <:+ ts) : ∃ x z, before ++ rest = x ++ z ∧ t.span.stop = String.utf8Len x ∧
      Tiled x t.kind.endsStatement z us := by
  induction h with
  | finish _ semicolon =>
    have hsuffix := suffix_of_unwritten (fun s hs => (semicolon.bounds s hs).1) ht hus
    rcases List.suffix_cons_iff.mp hsuffix with heq | hsuffix
    · rw [(List.cons.inj heq).1] at ht
      cases ht
    · cases List.suffix_nil.mp hsuffix
  | @token before gap text rest _ _ _ kind _ semicolon _ _ _ behind ih =>
    have hsuffix := suffix_of_unwritten (fun s hs => (semicolon.bounds s hs).1) ht hus
    rcases List.suffix_cons_iff.mp hsuffix with heq | hsuffix
    · obtain ⟨rfl, rfl⟩ := List.cons_eq_cons.mp heq
      exact ⟨_, rest, by simp only [List.append_assoc], stop_reading _ _, behind⟩
    · obtain ⟨x, z, hxz, hrest⟩ := ih hsuffix
      exact ⟨x, z, by simpa only [List.append_assoc] using hxz, hrest⟩

/-! ## Semicolons -/

theorem SemicolonIn.separated {x gap next : List Char} {mid : List Token} {u : Token}
    (h : SemicolonIn x gap next t.kind.endsStatement mid) (hstop : t.span.stop = String.utf8Len x)
    (hstart : u.span.start = String.utf8Len (x ++ gap)) (heof : u.kind = .eof ↔ next = []) :
    Separated (String.ofList (x ++ (gap ++ next))) t mid u := by
  refine ⟨String.ofList x, String.ofList gap, String.ofList next, ?_, ?_, ?_, ?_⟩
  · rw [← String.ofList_append, ← String.ofList_append, List.append_assoc]
  · rw [hstop, String.utf8ByteSize_ofList]
  · rw [hstart, ← String.ofList_append, String.utf8ByteSize_ofList]
  · simp only [String.toList_ofList, heof]
    generalize t.kind.endsStatement = ends at h
    cases h with
    | absent hnone =>
      rw [if_neg]
      rintro ⟨hends, hdue⟩
      obtain ⟨hline, hnext⟩ := hnone hends
      exact hdue.elim hline hnext
    | @one lead tail cut due line same stop =>
      rw [if_pos ⟨rfl, due⟩]
      refine ⟨_, String.ofList lead, String.ofList tail, rfl, rfl, ?_, ?_, ?_⟩
      · rw [cut, String.ofList_append]
      · rw [start_at, ← String.ofList_append, String.utf8ByteSize_ofList]
      · rw [← String.ofList_append, String.toList_ofList, String.toList_ofList]
        exact ⟨line, same, stop⟩

/-- Behind every written token come the semicolons that end its statement, and then the next
token; in front of the first token there is none. -/
theorem separated_ofSource {source : String} (h : ofSource source = .ok ts) :
    (∃ u us, ts = u :: us ∧ u.kind ≠ .newline) ∧
    ∀ pre t us, ts = pre ++ t :: us → t.kind.isWritten = true →
      ∃ mid u us', us = mid ++ u :: us' ∧ u.kind ≠ .newline ∧ Separated source t mid u := by
  have htiled := tiled_ofSource h
  refine ⟨?_, ?_⟩
  · obtain ⟨gap, next, mid, u, us, -, hts, -, hsemicolon, hu, -⟩ := htiled.next
    cases hsemicolon
    exact ⟨u, us, hts, hu⟩
  · intro pre t us hts ht
    obtain ⟨x, z, hxz, hstop, hbehind⟩ := htiled.behind ht ⟨pre, hts.symm⟩
    obtain ⟨gap, next, mid, u, us', rfl, hus, hstart, hsemicolon, hu, heof⟩ := hbehind.next
    have hsource : source = String.ofList (x ++ (gap ++ next)) := by
      rw [← hxz, List.nil_append, String.ofList_toList]
    exact ⟨mid, u, us', hus, hu, hsource ▸ hsemicolon.separated hstop hstart heof⟩

theorem separated_comment :
    let source := "x /* a\n*/ y // z"
    let ts : List Token := [⟨.name "x", 0, 1, 1, 1⟩, ⟨.newline, 2, 2, 1, 3⟩,
      ⟨.name "y", 10, 11, 2, 4⟩, ⟨.newline, 16, 16, 2, 10⟩, ⟨.eof, 16, 16, 2, 10⟩]
    ofSource source = .ok ts ∧ ∃ mid u us', ts.tail = mid ++ u :: us' ∧ u.kind ≠ .newline ∧
      Separated source ⟨.name "x", 0, 1, 1, 1⟩ mid u := by
  intro source ts
  have htokens : ofSource source = .ok ts := by decide +kernel
  exact ⟨htokens, (separated_ofSource htokens).2 [] _ _ rfl rfl⟩

end Token

end GoRepl
