import GoRepl.Proofs.Fragment.ErrorPlaces

/-! # Spans put together

Two spans of one source are merged to the least stretch that covers both.  Its line is the one of
its start; so is its column, unless both spans are on one line and the left operand is behind the
right one.

* `Span.Covers`, `Span.merge_le`, `Span.covers_merge_left`: the least stretch.
* `Span.merge_assoc`, `Span.merge_self`, `Span.merge_comm_iff`: the laws of merging.
* `Span.StartsBehind`: a span at the place that a text leads to.
* `Token.merge_ofSource`: merging the tokens of a source.
-/

namespace GoRepl

namespace Span

variable {s t u : Span}

/-! ## Any spans -/

/-- Every byte of `t` is one of `s`. -/
def Covers (s t : Span) : Prop := s.start ≤ t.start ∧ t.stop ≤ s.stop

theorem covers_merge_left (s t : Span) : (s.merge t).Covers s :=
  ⟨Nat.min_le_left _ _, Nat.le_max_left _ _⟩

theorem covers_merge_right (s t : Span) : (s.merge t).Covers t :=
  ⟨Nat.min_le_right _ _, Nat.le_max_right _ _⟩

theorem merge_le (hs : u.Covers s) (ht : u.Covers t) : u.Covers (s.merge t) :=
  ⟨Nat.le_min.mpr ⟨hs.1, ht.1⟩, Nat.max_le.mpr ⟨hs.2, ht.2⟩⟩

theorem merge_self (s : Span) : s.merge s = s := by
  simp only [merge, Nat.min_self, Nat.max_self, ite_self]

theorem merge_assoc (s t u : Span) : (s.merge t).merge u = s.merge (t.merge u) := by
  have hcol : (if min s.line t.line ≤ u.line then if s.line ≤ t.line then s.col else t.col
      else u.col) = if s.line ≤ min t.line u.line then s.col
      else if t.line ≤ u.line then t.col else u.col := by
    by_cases hst : s.line ≤ t.line
    · rw [Nat.min_eq_left hst, if_pos hst]
      by_cases hsu : s.line ≤ u.line
      · rw [if_pos hsu, if_pos (Nat.le_min.mpr ⟨hst, hsu⟩)]
      · have htu : ¬t.line ≤ u.line := by omega
        rw [if_neg hsu, if_neg fun h => hsu (Nat.le_min.mp h).2, if_neg htu]
    · rw [Nat.min_eq_right (Nat.le_of_not_le hst), if_neg hst,
        if_neg fun h => hst (Nat.le_min.mp h).1]
  simp only [merge, mk.injEq]
  exact ⟨Nat.min_assoc _ _ _, Nat.max_assoc _ _ _, Nat.min_assoc _ _ _, hcol⟩

/-- The operands can be exchanged unless they are in different columns of one line. -/
theorem merge_comm_iff : s.merge t = t.merge s ↔ (s.line = t.line → s.col = t.col) := by
  have hcol : (s.merge t).col = (t.merge s).col ↔ (s.line = t.line → s.col = t.col) := by
    simp only [merge]
    by_cases hst : s.line ≤ t.line
    · by_cases hts : t.line ≤ s.line
      · rw [if_pos hst, if_pos hts, forall_prop_of_true (Nat.le_antisymm hst hts)]
      · have hne : s.line ≠ t.line := by omega
        rw [if_pos hst, if_neg hts]
        exact iff_of_true rfl fun heq => absurd heq hne
    · have hts : t.line ≤ s.line := Nat.le_of_not_le hst
      have hne : s.line ≠ t.line := by omega
      rw [if_neg hst, if_pos hts]
      exact iff_of_true rfl fun heq => absurd heq hne
  rw [← hcol]
  constructor
  · intro h
    rw [h]
  · intro h
    have hmerge : ∀ s t : Span, s.merge t = ⟨min s.start t.start, max s.stop t.stop,
      min s.line t.line, (s.merge t).col⟩ := fun s t => rfl
    rw [hmerge s t, hmerge t s, h, Nat.min_comm s.start, Nat.max_comm s.stop, Nat.min_comm s.line]

/-! ## Spans of one source -/

/-- The span starts at the place that the text `x` leads to. -/
structure StartsBehind (x : List Char) (s : Span) : Prop where
  start : s.start = String.utf8Len x
  line : s.line = 1 + x.count '\n'
  col : s.col = 1 + (x.rtakeWhile (· ≠ '\n')).length

variable {x y cs : List Char}

/-- Of two starts in one source the first one in bytes has less text in front. -/
theorem StartsBehind.prefix_of_le (hs : StartsBehind x s) (ht : StartsBehind y t) (hx : x <+: cs)
    (hy : y <+: cs) (h : s.start ≤ t.start) : x <+: y := by
  rcases List.prefix_or_prefix_of_prefix hx hy with hxy | hyx
  · exact hxy
  · obtain ⟨d, rfl⟩ := hyx
    have hd : String.utf8Len d = 0 := by
      rw [hs.start, ht.start, String.utf8Len_append] at h
      omega
    rw [String.utf8Len_eq_zero.mp hd]
    exact ⟨[], (List.append_nil (y ++ [])).trans (List.append_nil y)⟩

theorem StartsBehind.line_le (hs : StartsBehind x s) (ht : StartsBehind y t) (h : x <+: y) :
    s.line ≤ t.line := by
  rw [hs.line, ht.line]
  exact Nat.add_le_add_left (h.sublist.count_le '\n') 1

/-- On one line the columns are as far apart as the starts are in characters. -/
theorem StartsBehind.col_add {d : List Char} (hs : StartsBehind x s)
    (ht : StartsBehind (x ++ d) t) (hline : s.line = t.line) : t.col = s.col + d.length := by
  have hd : '\n' ∉ d := by
    rw [hs.line, ht.line, List.count_append] at hline
    exact List.count_eq_zero.mp (by omega)
  have htake : (x ++ d).rtakeWhile (· ≠ '\n') = x.rtakeWhile (· ≠ '\n') ++ d := by
    rw [List.rtakeWhile, List.reverse_append, List.takeWhile_append_of_pos, List.reverse_append,
      List.reverse_reverse, List.rtakeWhile]
    intro c hc
    have hne : c ≠ '\n' := fun heq => hd (heq ▸ List.mem_reverse.mp hc)
    exact decide_eq_true hne
  rw [hs.col, ht.col, htake, List.length_append]
  omega

/-- On one line the columns are in the order of the starts. -/
theorem StartsBehind.col_lt (hs : StartsBehind x s) (ht : StartsBehind y t) (hx : x <+: cs)
    (hy : y <+: cs) (hline : s.line = t.line) (h : s.start < t.start) : s.col < t.col := by
  obtain ⟨d, rfl⟩ := hs.prefix_of_le ht hx hy h.le
  have hd : d ≠ [] := by
    rintro rfl
    rw [hs.start, ht.start, List.append_nil] at h
    exact lt_irrefl _ h
  have hlen := List.length_pos_iff.mpr hd
  rw [hs.col_add ht hline]
  omega

/-- On one line, the same column is the same start. -/
theorem StartsBehind.col_eq_iff (hs : StartsBehind x s) (ht : StartsBehind y t) (hx : x <+: cs)
    (hy : y <+: cs) (hline : s.line = t.line) : s.col = t.col ↔ s.start = t.start := by
  rcases Nat.lt_trichotomy s.start t.start with h | h | h
  · exact iff_of_false (hs.col_lt ht hx hy hline h).ne h.ne
  · obtain ⟨d, rfl⟩ := hs.prefix_of_le ht hx hy h.le
    have hd : String.utf8Len d = 0 := by
      rw [hs.start, ht.start, String.utf8Len_append] at h
      omega
    refine iff_of_true ?_ h
    rw [hs.col_add ht hline, String.utf8Len_eq_zero.mp hd]
    rfl
  · exact iff_of_false (ht.col_lt hs hy hx hline.symm h).ne' h.ne'

/-- The start of the merged span has its line; its column is the one there unless the left operand
is further to the right on the same line. -/
theorem StartsBehind.merge_start (hs : StartsBehind x s) (ht : StartsBehind y t) (hx : x <+: cs)
    (hy : y <+: cs) : ∃ w, w <+: cs ∧ (s.merge t).start = String.utf8Len w ∧
      (s.merge t).line = 1 + w.count '\n' ∧
      ((s.merge t).col = 1 + (w.rtakeWhile (· ≠ '\n')).length ↔
        (s.line = t.line → s.start ≤ t.start)) := by
  by_cases hst : s.start ≤ t.start
  · have hline := hs.line_le ht (hs.prefix_of_le ht hx hy hst)
    refine ⟨x, hx, ?_, ?_, ?_⟩
    · exact (Nat.min_eq_left hst).trans hs.start
    · exact (Nat.min_eq_left hline).trans hs.line
    · simp only [merge, if_pos hline, hs.col, hst, implies_true]
  · have hts : t.start < s.start := Nat.lt_of_not_le hst
    have hline := ht.line_le hs (ht.prefix_of_le hs hy hx hts.le)
    refine ⟨y, hy, ?_, ?_, ?_⟩
    · exact (Nat.min_eq_right hts.le).trans ht.start
    · exact (Nat.min_eq_right hline).trans ht.line
    · rw [← ht.col]
      by_cases heq : s.line = t.line
      · -- the lines are equal, so the column of `s` is taken
        have hcol := ht.col_lt hs hy hx heq.symm hts
        rw [merge, if_pos heq.le]
        exact iff_of_false hcol.ne' fun h => hst (h heq)
      · have hnle : ¬s.line ≤ t.line := fun hle => heq (Nat.le_antisymm hle hline)
        rw [merge, if_neg hnle]
        exact iff_of_true rfl fun h => absurd h heq

end Span

namespace Token

variable {source : String} {ts : List Token}

theorem IsPlaced.startsBehind {t : Token} (h : IsPlaced source t) :
    ∃ x, x <+: source.toList ∧ t.span.StartsBehind x := by
  obtain ⟨x, z, hsource, hstart, -, hline, hcol⟩ := h
  refine ⟨x.toList, ?_, ⟨?_, hline, hcol⟩⟩
  · rw [hsource, String.append_assoc, String.toList_append]
    exact List.prefix_append _ _
  · rw [hstart, ← String.utf8ByteSize_ofList, String.ofList_toList]

/-- Of any two tokens of a source the merged span is the least that covers both.  Its line is that
of its start; its column is so if and only if the left operand is not further to the right on the
same line.  Merging is associative and idempotent, and commutative but for two tokens that start at
different places of one line. -/
theorem merge_ofSource (h : ofSource source = .ok ts) {s t : Token} (hs : s ∈ ts) (ht : t ∈ ts) :
    let m := s.span.merge t.span
    (m.Covers s.span ∧ m.Covers t.span ∧
      ∀ v : Span, v.Covers s.span → v.Covers t.span → v.Covers m) ∧
    (∃ x y line col, CutAt source x y line col ∧ m.start = x.utf8ByteSize ∧ m.line = line ∧
      (m.col = col ↔ (s.span.line = t.span.line → s.span.start ≤ t.span.start))) ∧
    (m = t.span.merge s.span ↔ (s.span.line = t.span.line → s.span.start = t.span.start)) ∧
    (∀ u : Span, m.merge u = s.span.merge (t.span.merge u)) ∧ s.span.merge s.span = s.span := by
  obtain ⟨x, hx, hbs⟩ := ((tiling_ofSource h).placed s hs).startsBehind
  obtain ⟨y, hy, hbt⟩ := ((tiling_ofSource h).placed t ht).startsBehind
  refine ⟨⟨Span.covers_merge_left _ _, Span.covers_merge_right _ _, fun v => Span.merge_le⟩,
    ?_, ?_, Span.merge_assoc _ _, Span.merge_self _⟩
  · obtain ⟨w, ⟨z, hw⟩, hstart, hline, hcol⟩ := hbs.merge_start hbt hx hy
    refine ⟨String.ofList w, String.ofList z, _, _, ⟨?_, rfl, rfl⟩, ?_, ?_, ?_⟩
    · rw [← String.ofList_append, hw, String.ofList_toList]
    · rw [hstart, String.utf8ByteSize_ofList]
    · rw [hline, String.toList_ofList]
    · rw [String.toList_ofList]
      exact hcol
  · rw [Span.merge_comm_iff]
    exact forall_congr' fun hline => hbs.col_eq_iff hbt hx hy hline

theorem merge_lines :
    let source := "é\nf(π)"
    let s : Token := ⟨.name "π", 5, 7, 2, 3⟩
    let t : Token := ⟨.name "é", 0, 2, 1, 1⟩
    let ts : List Token := [t, ⟨.newline, 2, 2, 1, 2⟩, ⟨.name "f", 3, 4, 2, 1⟩,
      ⟨.symbol .lparen, 4, 5, 2, 2⟩, s, ⟨.symbol .rparen, 7, 8, 2, 4⟩, ⟨.newline, 8, 8, 2, 5⟩,
      ⟨.eof, 8, 8, 2, 5⟩]
    ofSource source = .ok ts ∧ s ∈ ts ∧ t ∈ ts ∧ s.span.merge t.span = ⟨0, 7, 1, 1⟩ ∧
      s.span.merge t.span = t.span.merge s.span := by
  intro source s t ts
  have htokens : ofSource source = .ok ts := by decide +kernel
  have hs : s ∈ ts := by decide
  obtain ⟨-, -, hcomm, -⟩ := merge_ofSource htokens hs (.head _)
  exact ⟨htokens, hs, .head _, rfl, hcomm.mpr fun hline => absurd hline (by decide)⟩

/-- Merged with a token to its left, a token keeps its own column. -/
theorem merge_leftwards :
    let source := "a b"
    let s : Token := ⟨.name "b", 2, 3, 1, 3⟩
    let t : Token := ⟨.name "a", 0, 1, 1, 1⟩
    ofSource source = .ok [t, s, ⟨.newline, 3, 3, 1, 4⟩, ⟨.eof, 3, 3, 1, 4⟩] ∧
      s.span.merge t.span = ⟨0, 3, 1, 3⟩ ∧ t.span.merge s.span = ⟨0, 3, 1, 1⟩ ∧
      ∀ x y line col, CutAt source x y line col → (s.span.merge t.span).start = x.utf8ByteSize →
        (s.span.merge t.span).col ≠ col := by
  intro source s t
  refine ⟨by decide +kernel, rfl, rfl, fun x y line col hcut hstart => ?_⟩
  obtain rfl : x = "" := String.utf8ByteSize_eq_zero_iff.mp hstart.symm
  rw [hcut.col_eq]
  decide

end Token

end GoRepl
