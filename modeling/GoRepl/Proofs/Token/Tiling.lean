import GoRepl.Proofs.Source.Position
import GoRepl.Proofs.Token.Gap

/-! # How the tokens lie in the source

The tokens of a source lie behind one another in it, each at the place of its text, and between
them there are only blanks, line ends and comments.

* `Token.SemicolonIn`: the semicolon that is inserted between two tokens, if there is one.
* `Token.Tiled`, `Token.tiled_place`: a source as gaps and tokens in turn.
* `Token.Tiling`, `Token.tiling_ofSource`: where the tokens of a source are.
-/

namespace GoRepl

namespace Token

open Position

/-- What is inserted into `gap`, in front of which stands `before`, and `next` behind it; `ends`
says whether the token before the gap may end a statement. -/
inductive SemicolonIn (before gap next : List Char) : Bool → List Token → Prop
  | absent {ends : Bool} (h : ends = true → '\n' ∉ gap ∧ next ≠ []) :
      SemicolonIn before gap next ends []
  | one {lead tail : List Char} (cut : gap = lead ++ tail) (due : '\n' ∈ gap ∨ next = [])
      (line : Gap (tail ++ next) lead) (same : '\n' ∉ lead) (stop : EndsLine (tail ++ next)) :
      SemicolonIn before gap next true [⟨.newline, Span.at (after {} (before ++ lead))⟩]

/-- The tokens of the text that stands behind `before`; `ends` says whether the token before it may
end a statement. -/
inductive Tiled : List Char → Bool → List Char → List Token → Prop
  | finish {before gap : List Char} {ends : Bool} {semicolons : List Token} (between : Gap [] gap)
      (semicolon : SemicolonIn before gap [] ends semicolons) :
      Tiled before ends gap (semicolons ++ [⟨.eof, Span.at (after {} (before ++ gap))⟩])
  | token {before gap text rest : List Char} {ends : Bool} {semicolons ts : List Token}
      {kind : Kind} (between : Gap (text ++ rest) gap)
      (semicolon : SemicolonIn before gap (text ++ rest) ends semicolons)
      (spelled : kind.spelling = String.ofList text) (written : kind.isWritten = true)
      (nonempty : text ≠ [])
      (behind : Tiled (before ++ gap ++ text) kind.endsStatement rest ts) :
      Tiled before ends (gap ++ (text ++ rest))
        (semicolons ++ ⟨kind, Span.reading (after {} (before ++ gap)) text⟩ :: ts)

variable {before gap next t rest : List Char} {ends : Bool} {semicolons ts : List Token}

/-- Where a line ends at the front of the gap, the semicolon stands there. -/
theorem SemicolonIn.front (due : '\n' ∈ gap ∨ next = []) (stop : EndsLine (gap ++ next))
    (ends : Bool) : SemicolonIn before gap next ends (inserted ends (after {} before)) := by
  cases ends with
  | false => exact .absent nofun
  | true =>
    have hone : SemicolonIn before gap next true
        [⟨.newline, Span.at (after {} (before ++ []))⟩] :=
      .one (List.nil_append gap).symm due .nil List.not_mem_nil stop
    rwa [List.append_nil] at hone

theorem SemicolonIn.inline (h : SemicolonIn (before ++ t) gap next ends semicolons)
    (ht : Filler (gap ++ next) t) (hn : '\n' ∉ t) :
    SemicolonIn before (t ++ gap) next ends semicolons := by
  have hmem : '\n' ∈ t ++ gap ↔ '\n' ∈ gap := by simp [hn]
  cases h with
  | absent h => exact .absent fun he => ⟨fun hg => (h he).1 (hmem.mp hg), (h he).2⟩
  | @one lead tail cut due line same stop =>
    subst cut
    rw [List.append_assoc before]
    have hlead : Filler (lead ++ (tail ++ next)) t := by rwa [← List.append_assoc]
    exact .one (List.append_assoc ..).symm (due.imp_left hmem.mpr) (.cons hlead line)
      (by simp [hn, same]) stop

theorem SemicolonIn.line (h : SemicolonIn (before ++ t) gap next false semicolons)
    (hn : '\n' ∈ t) (hstop : EndsLine (t ++ (gap ++ next))) (ends : Bool) :
    SemicolonIn before (t ++ gap) next ends (inserted ends (after {} before) ++ semicolons) := by
  cases h
  rw [List.append_nil]
  exact .front (.inl (List.mem_append_left gap hn)) (by rwa [List.append_assoc]) ends

theorem Tiled.inline (h : Tiled (before ++ t) ends rest ts) (ht : Filler rest t) (hn : '\n' ∉ t) :
    Tiled before ends (t ++ rest) ts := by
  cases h with
  | @finish _ _ _ _ between semicolon =>
    have ht' : Filler (rest ++ []) t := by rwa [List.append_nil]
    rw [List.append_assoc]
    exact .finish (.cons ht' between) (semicolon.inline ht' hn)
  | @token _ gap text rest _ _ _ kind between semicolon spelled written nonempty behind =>
    rw [List.append_assoc before] at behind ⊢
    rw [← List.append_assoc t]
    exact .token (.cons ht between) (semicolon.inline ht hn) spelled written nonempty behind

theorem Tiled.line (h : Tiled (before ++ t) false rest ts) (ht : Filler rest t) (hn : '\n' ∈ t)
    (hstop : EndsLine (t ++ rest)) (ends : Bool) :
    Tiled before ends (t ++ rest) (inserted ends (after {} before) ++ ts) := by
  cases h with
  | @finish _ _ _ _ between semicolon =>
    have ht' : Filler (rest ++ []) t := by rwa [List.append_nil]
    rw [List.append_assoc, ← List.append_assoc (inserted ends _)]
    refine .finish (.cons ht' between) (semicolon.line hn ?_ ends)
    rwa [List.append_nil]
  | @token _ gap text rest _ _ _ kind between semicolon spelled written nonempty behind =>
    rw [List.append_assoc before] at behind ⊢
    rw [← List.append_assoc t, ← List.append_assoc (inserted ends _)]
    exact .token (.cons ht between) (semicolon.line hn hstop ends) spelled written nonempty behind

/-- Placing the pieces of a text tiles it. -/
theorem tiled_place {ps : List Piece} (h : Piece.Fronts [] ps) (before : List Char) (ends : Bool) :
    Tiled before ends (ps.flatMap Piece.text) (place (after {} before) ends ps) := by
  induction ps generalizing before ends with
  | nil =>
    have hsemicolon : SemicolonIn before [] [] ends (inserted ends (after {} before)) :=
      .front (.inr rfl) (.inl rfl) ends
    have hfinish := Tiled.finish .nil hsemicolon
    rwa [List.append_nil] at hfinish
  | cons p ps ih =>
    obtain ⟨⟨c, t, ht, hf⟩, hrest⟩ := h
    rw [List.append_nil] at hf
    have htail := ih hrest (before ++ p.text)
    rw [after_append] at htail
    rw [List.flatMap_cons]
    -- a filler joins the gap in front of the next token; a token starts a gap behind it
    cases p with
    | newline =>
      exact (htail false).line (Piece.filler_of_first hf rfl ht rfl) (.head _)
        (Piece.endsLine_of_first hf rfl (.head _)) ends
    | blank d =>
      refine (htail ends).inline (Piece.filler_of_first hf rfl ht rfl) fun hn => ?_
      obtain rfl : '\n' = d := List.mem_singleton.mp hn
      exact absurd (Piece.blank_of_first hf) (by decide)
    | lineComment text =>
      have hfiller := Piece.filler_of_first hf rfl ht rfl
      refine (htail ends).inline hfiller fun hn => ?_
      exact Piece.newline_not_mem_of_lineComment hf hn
    | blockComment text =>
      have hfiller := Piece.filler_of_first hf rfl ht rfl
      rw [place]
      split
      · rename_i hn
        exact (htail false).line hfiller hn (Piece.endsLine_of_first hf rfl hn) ends
      · rename_i hn
        exact (htail ends).inline hfiller hn
    | written kind text =>
      obtain ⟨hspelled, hwritten⟩ := Piece.spelling_of_first hf
      have hne : text ≠ [] := by
        rw [show text = c :: t from ht]
        exact List.cons_ne_nil _ _
      have habsent : SemicolonIn before [] (text ++ ps.flatMap Piece.text) ends [] :=
        .absent fun _ => ⟨List.not_mem_nil, List.append_ne_nil_of_left_ne_nil hne _⟩
      have htoken := Tiled.token .nil habsent hspelled hwritten hne
        (by rw [List.append_nil]; exact htail kind.endsStatement)
      rwa [List.append_nil] at htoken

theorem tiled_ofSource {source : String} (h : ofSource source = .ok ts) :
    Tiled [] false source.toList ts := by
  obtain ⟨ps, hcut, rfl⟩ := ofSource_eq_ok.mp h
  obtain ⟨hfronts, htext⟩ := Piece.fronts_of_cut hcut
  have htiled := tiled_place hfronts [] false
  rwa [htext] at htiled

/-! ## Places and gaps -/

/-- The bytes of the span are those of the token's spelling, and its line and column are those of
its start: one more than the line feeds before it, and than the characters since the last of
them. -/
def IsPlaced (source : String) (t : Token) : Prop :=
  ∃ x z : String, source = x ++ t.kind.spelling ++ z ∧ t.span.start = x.utf8ByteSize ∧
    t.span.stop = (x ++ t.kind.spelling).utf8ByteSize ∧
    t.span.line = 1 + x.toList.count '\n' ∧
    t.span.col = 1 + (x.toList.rtakeWhile (· ≠ '\n')).length

/-- The bytes from `start` to `stop` that are in front of, between and behind the written tokens. -/
def gaps (start stop : Nat) (ts : List Token) : List (Nat × Nat) :=
  let written := ts.filter (·.kind.isWritten)
  (start :: written.map (·.span.stop)).zip (written.map (·.span.start) ++ [stop])

/-- Between the two bytes stand only blanks, line ends and comments. -/
def IsGap (source : String) (g : Nat × Nat) : Prop :=
  ∃ x gap z : String, source = x ++ gap ++ z ∧ g.1 = x.utf8ByteSize ∧
    g.2 = (x ++ gap).utf8ByteSize ∧ Gap z.toList gap.toList

/-- The tokens lie behind one another at the places of their texts, with nothing but gaps between
them; inserted semicolons and the end mark are empty and lie in the gaps. -/
structure Tiling (source : String) (ts : List Token) : Prop where
  placed : ∀ t ∈ ts, IsPlaced source t
  ordered : ts.Pairwise fun t u => t.span.stop ≤ u.span.start
  nonempty : ∀ t ∈ ts, t.kind.isWritten = true → t.span.start < t.span.stop
  between : ∀ g ∈ gaps 0 source.utf8ByteSize ts, IsGap source g
  inserted : ∀ t ∈ ts, t.kind.isWritten = false → t.span.start = t.span.stop ∧
    ∃ g ∈ gaps 0 source.utf8ByteSize ts, g.1 ≤ t.span.start ∧ t.span.stop ≤ g.2

theorem start_reading (x text : List Char) :
    (Span.reading (after {} x) text).start = String.utf8Len x := by
  rw [Span.reading, offset_after]
  exact Nat.zero_add _

theorem stop_reading (x text : List Char) :
    (Span.reading (after {} x) text).stop = String.utf8Len (x ++ text) := by
  simp only [Span.reading, ← after_append, offset_after]
  exact Nat.zero_add _

theorem start_at (x : List Char) : (Span.at (after {} x)).start = String.utf8Len x :=
  start_reading x []

theorem isPlaced_reading {kind : Kind} {text : List Char}
    (h : kind.spelling = String.ofList text) (x z : List Char) :
    IsPlaced (String.ofList (x ++ text ++ z)) ⟨kind, Span.reading (after {} x) text⟩ := by
  refine ⟨String.ofList x, String.ofList z, ?_, ?_, ?_, ?_, ?_⟩
  · rw [h, String.ofList_append, String.ofList_append]
  · rw [start_reading, String.utf8ByteSize_ofList]
  · rw [stop_reading, h, ← String.ofList_append, String.utf8ByteSize_ofList]
  · rw [Span.reading, line_after, String.toList_ofList]
  · rw [Span.reading, col_after, String.toList_ofList]

theorem SemicolonIn.cut_of_mem (h : SemicolonIn before gap next ends semicolons) {u : Token}
    (hu : u ∈ semicolons) : ∃ lead tail, gap = lead ++ tail ∧
      u = ⟨.newline, Span.at (after {} (before ++ lead))⟩ := by
  cases h with
  | absent => cases hu
  | one cut => exact ⟨_, _, cut, List.mem_singleton.mp hu⟩

/-- Every token is read from its spelling somewhere in the text; only inserted semicolons and the
end mark have none. -/
theorem Tiled.reading_of_mem (h : Tiled before ends rest ts) : ∀ u ∈ ts, ∃ x text z,
    before ++ rest = before ++ x ++ text ++ z ∧ u.kind.spelling = String.ofList text ∧
      u.span = Span.reading (after {} (before ++ x)) text ∧
      (u.kind.isWritten = true ↔ text ≠ []) := by
  induction h with
  | @finish before gap _ _ _ semicolon =>
    refine List.forall_mem_append.mpr ⟨fun u hu => ?_, List.forall_mem_singleton.mpr ?_⟩
    · obtain ⟨lead, tail, rfl, rfl⟩ := semicolon.cut_of_mem hu
      exact ⟨lead, [], tail, by simp only [List.append_assoc, List.nil_append], rfl, rfl,
        iff_of_false Bool.false_ne_true (· rfl)⟩
    · exact ⟨gap, [], [], by simp only [List.append_nil], rfl, rfl,
        iff_of_false Bool.false_ne_true (· rfl)⟩
  | @token before gap text rest _ _ _ kind _ semicolon spelled written nonempty _ ih =>
    refine List.forall_mem_append.mpr ⟨fun u hu => ?_, List.forall_mem_cons.mpr ⟨?_, ?_⟩⟩
    · obtain ⟨lead, tail, rfl, rfl⟩ := semicolon.cut_of_mem hu
      exact ⟨lead, [], tail ++ (text ++ rest), by simp only [List.append_assoc, List.nil_append],
        rfl, rfl, iff_of_false Bool.false_ne_true (· rfl)⟩
    · exact ⟨gap, text, rest, by simp only [List.append_assoc], spelled, rfl,
        iff_of_true written nonempty⟩
    · intro u hu
      obtain ⟨x, text', z, hcut, hread⟩ := ih u hu
      refine ⟨gap ++ text ++ x, text', z, ?_, ?_⟩
      · simpa only [List.append_assoc] using hcut
      · simpa only [List.append_assoc] using hread

theorem Tiled.placed (h : Tiled before ends rest ts) :
    ∀ u ∈ ts, IsPlaced (String.ofList (before ++ rest)) u := by
  intro u hu
  obtain ⟨x, text, z, hcut, hspelled, hspan, -⟩ := h.reading_of_mem u hu
  rw [hcut, show u = ⟨u.kind, Span.reading (after {} (before ++ x)) text⟩ from hspan ▸ rfl]
  exact isPlaced_reading hspelled (before ++ x) z

/-! ### In order -/

theorem Tiled.le_start (h : Tiled before ends rest ts) :
    ∀ u ∈ ts, String.utf8Len before ≤ u.span.start := by
  intro u hu
  obtain ⟨x, text, -, -, -, hspan, -⟩ := h.reading_of_mem u hu
  rw [hspan, start_reading]
  exact String.utf8Len_le_of_prefix (List.prefix_append _ _)

theorem Tiled.start_lt_stop (h : Tiled before ends rest ts) :
    ∀ u ∈ ts, u.kind.isWritten = true → u.span.start < u.span.stop := by
  intro u hu hwritten
  obtain ⟨x, text, -, -, -, hspan, hne⟩ := h.reading_of_mem u hu
  obtain ⟨c, text, rfl⟩ := List.exists_cons_of_ne_nil (hne.mp hwritten)
  have hpos := c.utf8Size_pos
  rw [hspan, start_reading, stop_reading, String.utf8Len_append (before ++ x), String.utf8Len_cons]
  omega

theorem SemicolonIn.bounds (h : SemicolonIn before gap next ends semicolons) :
    ∀ u ∈ semicolons, u.kind.isWritten = false ∧ u.span.stop = u.span.start ∧
      String.utf8Len before ≤ u.span.start ∧ u.span.stop ≤ String.utf8Len (before ++ gap) := by
  intro u hu
  obtain ⟨lead, tail, rfl, rfl⟩ := h.cut_of_mem hu
  have hstart := start_at (before ++ lead)
  refine ⟨rfl, rfl, hstart ▸ String.utf8Len_le_of_prefix (List.prefix_append _ _), ?_⟩
  change (Span.at _).start ≤ _
  rw [hstart, ← List.append_assoc]
  exact String.utf8Len_le_of_prefix (List.prefix_append _ _)

theorem SemicolonIn.pairwise (h : SemicolonIn before gap next ends semicolons) :
    semicolons.Pairwise fun t u => t.span.stop ≤ u.span.start := by
  cases h with
  | absent => exact .nil
  | one => exact List.pairwise_singleton _ _

theorem Tiled.pairwise (h : Tiled before ends rest ts) :
    ts.Pairwise fun t u => t.span.stop ≤ u.span.start := by
  induction h with
  | @finish before gap _ _ _ semicolon =>
    refine List.pairwise_append.mpr
      ⟨semicolon.pairwise, List.pairwise_singleton _ _, fun t ht u hu => ?_⟩
    rw [List.mem_singleton.mp hu, start_at]
    exact (semicolon.bounds t ht).2.2.2
  | @token before gap text rest _ _ _ kind _ semicolon _ _ _ behind ih =>
    have hbehind := behind.le_start
    refine List.pairwise_append.mpr
      ⟨semicolon.pairwise, List.pairwise_cons.mpr ⟨fun u hu => ?_, ih⟩, fun t ht u hu => ?_⟩
    · rw [stop_reading]
      exact hbehind u hu
    · refine (semicolon.bounds t ht).2.2.2.trans ?_
      rcases List.mem_cons.mp hu with rfl | hu
      · rw [start_reading]
      · exact (String.utf8Len_le_of_prefix (List.prefix_append _ _)).trans (hbehind u hu)

/-! ### Gaps -/

theorem gaps_append (start stop : Nat) {u : Token} (hs : ∀ s ∈ semicolons, s.kind.isWritten = false)
    (hu : u.kind.isWritten = true) (ts : List Token) : gaps start stop (semicolons ++ u :: ts) =
      (start, u.span.start) :: gaps u.span.stop stop ts := by
  have hnone : semicolons.filter (·.kind.isWritten) = [] :=
    List.filter_eq_nil_iff.mpr fun s h => by simp [hs s h]
  simp only [gaps, List.filter_append, hnone, List.nil_append, List.filter_cons, hu, if_true,
    List.map_cons, List.cons_append, List.zip_cons_cons]

theorem gaps_of_unwritten (start stop : Nat) (h : ∀ t ∈ ts, t.kind.isWritten = false) :
    gaps start stop ts = [(start, stop)] := by
  have hnone : ts.filter (·.kind.isWritten) = [] :=
    List.filter_eq_nil_iff.mpr fun t ht => by simp [h t ht]
  simp only [gaps, hnone, List.map_nil, List.nil_append, List.zip_cons_cons, List.zip_nil_right]

theorem isGap_of_gap (before : List Char) (h : Gap next gap) :
    IsGap (String.ofList (before ++ (gap ++ next)))
      (String.utf8Len before, String.utf8Len (before ++ gap)) := by
  refine ⟨String.ofList before, String.ofList gap, String.ofList next, ?_, ?_, ?_, ?_⟩
  · rw [← List.append_assoc, String.ofList_append, String.ofList_append]
  · rw [String.utf8ByteSize_ofList]
  · rw [← String.ofList_append, String.utf8ByteSize_ofList]
  · rwa [String.toList_ofList, String.toList_ofList]

theorem Tiled.gaps_spec (h : Tiled before ends rest ts) :
    (∀ g ∈ gaps (String.utf8Len before) (String.utf8Len (before ++ rest)) ts,
      IsGap (String.ofList (before ++ rest)) g) ∧
    ∀ t ∈ ts, t.kind.isWritten = false → t.span.start = t.span.stop ∧
      ∃ g ∈ gaps (String.utf8Len before) (String.utf8Len (before ++ rest)) ts,
        g.1 ≤ t.span.start ∧ t.span.stop ≤ g.2 := by
  induction h with
  | @finish before gap _ semicolons between semicolon =>
    have hunwritten : ∀ t ∈ semicolons ++ [⟨.eof, Span.at (after {} (before ++ gap))⟩],
        t.kind.isWritten = false :=
      List.forall_mem_append.mpr
        ⟨fun u hu => (semicolon.bounds u hu).1, List.forall_mem_singleton.mpr rfl⟩
    rw [gaps_of_unwritten _ _ hunwritten]
    refine ⟨List.forall_mem_singleton.mpr ?_, List.forall_mem_append.mpr ⟨fun u hu _ => ?_,
      List.forall_mem_singleton.mpr fun _ => ⟨rfl, _, List.mem_singleton_self _, ?_, ?_⟩⟩⟩
    · simpa only [List.append_nil] using isGap_of_gap before between
    · obtain ⟨-, hempty, hstart, hstop⟩ := semicolon.bounds u hu
      exact ⟨hempty.symm, _, List.mem_singleton_self _, hstart, hstop⟩
    · rw [start_at]
      exact String.utf8Len_le_of_prefix (List.prefix_append _ _)
    · exact (start_at _).le
  | @token before gap text rest _ semicolons ts kind between semicolon spelled written _ _ ih =>
    obtain ⟨ihbetween, ihinserted⟩ := ih
    have hrest : before ++ (gap ++ (text ++ rest)) = before ++ gap ++ text ++ rest := by
      simp only [List.append_assoc]
    rw [gaps_append _ _ (fun u hu => (semicolon.bounds u hu).1) written, start_reading,
      stop_reading, hrest]
    refine ⟨List.forall_mem_cons.mpr ⟨?_, ihbetween⟩, List.forall_mem_append.mpr
      ⟨fun u hu _ => ?_, List.forall_mem_cons.mpr ⟨fun hnot => ?_, fun u hu hnot => ?_⟩⟩⟩
    · rw [← hrest]
      exact isGap_of_gap before between
    · obtain ⟨-, hempty, hstart, hstop⟩ := semicolon.bounds u hu
      exact ⟨hempty.symm, _, .head _, hstart, hstop⟩
    · rw [written] at hnot
      cases hnot
    · obtain ⟨hempty, g, hg, hbounds⟩ := ihinserted u hu hnot
      exact ⟨hempty, g, .tail _ hg, hbounds⟩

/-- The tokens of a source tile it. -/
theorem tiling_ofSource {source : String} (h : ofSource source = .ok ts) : Tiling source ts := by
  have htiled := tiled_ofSource h
  have hsource : String.ofList ([] ++ source.toList) = source := String.ofList_toList
  have hsize : String.utf8Len ([] ++ source.toList) = source.utf8ByteSize := by
    rw [← String.utf8ByteSize_ofList, hsource]
  have hplaced := htiled.placed
  obtain ⟨hbetween, hinserted⟩ := htiled.gaps_spec
  rw [hsource] at hplaced hbetween
  rw [hsize] at hbetween hinserted
  exact ⟨hplaced, htiled.pairwise, htiled.start_lt_stop, hbetween, hinserted⟩

theorem tiling_comments :
    let source := "é := \"π\" /* ∞\n*/ é++ // end"
    let ts : List Token := [⟨.name "é", 0, 2, 1, 1⟩, ⟨.symbol .define, 3, 5, 1, 3⟩,
      ⟨.literal .string "\"π\"", 6, 10, 1, 6⟩, ⟨.newline, 11, 11, 1, 10⟩,
      ⟨.name "é", 21, 23, 2, 4⟩, ⟨.symbol .inc, 23, 25, 2, 5⟩, ⟨.newline, 32, 32, 2, 14⟩,
      ⟨.eof, 32, 32, 2, 14⟩]
    ofSource source = .ok ts ∧ Tiling source ts := by
  intro source ts
  have htokens : ofSource source = .ok ts := by decide +kernel
  exact ⟨htokens, tiling_ofSource htokens⟩

end Token

end GoRepl
