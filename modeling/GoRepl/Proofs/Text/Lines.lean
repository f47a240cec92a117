import GoRepl.Text.Lines

/-! # Lines behind line feeds

A text that was put together from lines can be taken apart again.

* `Text.rows`: what the line feeds of a text close.
* `Text.rows_unlines`: the rows of closed lines are the lines.
* `Text.linesOf_closed`: the lines of a text without carriage returns are what its line feeds
  separate.
* `Text.lines_joinLines`: lines that were joined are the lines of the result.
* `Text.newline_not_mem_lines`, `Text.lines_eq_nil`: no line of a text has a line feed, and only
  the empty text has no lines.
-/

namespace GoRepl.Text

/-- What the line feeds of a text close, one piece for each of them. -/
def rows (s : String) : List String := ((s.toList.splitOn '\n').dropLast).map String.ofList

theorem toList_unlines (ls : List String) :
    (unlines ls).toList = ls.flatMap fun l => l.toList ++ ['\n'] := by
  unfold unlines
  rw [String.toList_join, List.flatMap_map]
  simp only [String.toList_append]
  rfl

/-- Lines that are closed by line feeds are read back. -/
theorem rows_unlines {ls : List String} (h : ∀ l ∈ ls, '\n' ∉ l.toList) :
    rows (unlines ls) = ls := by
  unfold rows
  rw [toList_unlines]
  induction ls with
  | nil => rfl
  | cons l ls ih =>
    obtain ⟨hl, hls⟩ := List.forall_mem_cons.mp h
    have hsplit : (l.toList ++ '\n' :: ls.flatMap fun l => l.toList ++ ['\n']).splitOn '\n' =
        l.toList :: (ls.flatMap fun l => l.toList ++ ['\n']).splitOn '\n' := by
      refine List.splitOnP_append_cons_of_forall_mem (fun c hc => ?_) '\n' (by rfl) _
      exact beq_false_of_ne fun he => hl (he ▸ hc)
    rw [List.flatMap_cons, List.append_assoc, List.singleton_append, hsplit,
      List.dropLast_cons_of_ne_nil (List.splitOn_ne_nil '\n' _), List.map_cons, ih hls,
      String.ofList_toList]

/-! ## The lines of a text -/

theorem splitOn_feed (cs : List Char) : ('\n' :: cs).splitOn '\n' = [] :: cs.splitOn '\n' :=
  List.splitOnP_cons_eq_if_modifyHead '\n' cs

theorem splitOn_cons_of_ne {c : Char} (h : c ≠ '\n') (cs : List Char) :
    (c :: cs).splitOn '\n' = (cs.splitOn '\n').modifyHead (c :: ·) := by
  unfold List.splitOn
  rw [List.splitOnP_cons_eq_if_modifyHead, if_neg (by simpa using h)]

/-- The first line of a text is what stands before its first line feed. -/
theorem splitOn_eq_cons (cs : List Char) :
    ∃ ls, cs.splitOn '\n' = cs.takeWhile (· ≠ '\n') :: ls := by
  induction cs with
  | nil => exact ⟨[], rfl⟩
  | cons c cs ih =>
    obtain ⟨ls, hls⟩ := ih
    by_cases hc : c = '\n'
    · rw [hc, splitOn_feed]
      exact ⟨cs.splitOn '\n', rfl⟩
    · rw [splitOn_cons_of_ne hc, hls, List.takeWhile_cons_of_pos (by simpa using hc)]
      exact ⟨ls, rfl⟩

/-- What follows a line feed does not belong to the first line. -/
theorem takeWhile_line (cs rest : List Char) :
    (cs ++ '\n' :: rest).takeWhile (· ≠ '\n') = cs.takeWhile (· ≠ '\n') := by
  induction cs with
  | nil => rfl
  | cons c cs ih => rw [List.cons_append, List.takeWhile_cons, List.takeWhile_cons, ih]

/-- The lines of a text that a line feed closes are what its line feeds separate. -/
theorem linesOf_closed {cs : List Char} (h : '\r' ∉ cs) (rest : List Char) :
    linesOf (cs ++ '\n' :: rest) = cs.splitOn '\n' ++ linesOf rest := by
  induction cs with
  | nil => rfl
  | cons c cs ih =>
    obtain ⟨hr, hcs⟩ := List.ne_and_not_mem_of_not_mem_cons h
    by_cases hc : c = '\n'
    · subst hc
      rw [List.cons_append, linesOf, ih hcs, splitOn_feed]
      rfl
    · obtain ⟨ls, hls⟩ := splitOn_eq_cons cs
      rw [List.cons_append, linesOf.eq_4 c _ hc fun _ he => absurd he (Ne.symm hr), ih hcs,
        splitOn_cons_of_ne hc, hls]
      rfl

/-- The lines of a text hold its characters, but no line feed. -/
theorem mem_of_mem_linesOf (cs : List Char) :
    ∀ l ∈ linesOf cs, ∀ c ∈ l, c ∈ cs ∧ c ≠ '\n' := by
  induction cs using linesOf.induct with
  | case1 => exact nofun
  | case2 r ih =>
    rw [linesOf]
    exact List.forall_mem_cons.mpr ⟨nofun, fun l hl c hc => (ih l hl c hc).imp_left (.tail _)⟩
  | case3 r ih =>
    rw [linesOf]
    refine List.forall_mem_cons.mpr ⟨nofun, fun l hl c hc => ?_⟩
    exact (ih l hl c hc).imp_left fun h => .tail _ (.tail _ h)
  | case4 d r hd hdr hr ih =>
    rw [linesOf.eq_4 d r hd hdr, hr]
    intro l hl c hc
    obtain rfl := List.mem_singleton.mp hl
    obtain rfl := List.mem_singleton.mp hc
    exact ⟨.head _, hd⟩
  | case5 d r hd hdr l ls hr ih =>
    rw [hr] at ih
    obtain ⟨hl, hls⟩ := List.forall_mem_cons.mp ih
    rw [linesOf.eq_4 d r hd hdr, hr]
    refine List.forall_mem_cons.mpr ⟨List.forall_mem_cons.mpr ⟨⟨.head _, hd⟩, ?_⟩, ?_⟩
    · exact fun c hc => (hl c hc).imp_left (.tail _)
    · exact fun l hl c hc => (hls l hl c hc).imp_left (.tail _)

theorem linesOf_eq_nil {cs : List Char} : linesOf cs = [] ↔ cs = [] := by
  constructor
  · induction cs using linesOf.induct with
    | case1 => exact fun _ => rfl
    | case2 r | case3 r =>
      rw [linesOf]
      exact nofun
    | case4 c r hc hcr hr | case5 c r hc hcr l ls hr =>
      rw [linesOf.eq_4 c r hc hcr, hr]
      exact nofun
  · rintro rfl
    rfl

/-- A text without line ends is its only line. -/
theorem linesOf_inline {cs : List Char} (hne : cs ≠ []) (hn : '\n' ∉ cs) (hr : '\r' ∉ cs) :
    linesOf cs = [cs] := by
  induction cs with
  | nil => exact absurd rfl hne
  | cons c r ih =>
    obtain ⟨hcn, hrn⟩ := List.ne_and_not_mem_of_not_mem_cons hn
    obtain ⟨hcr, hrr⟩ := List.ne_and_not_mem_of_not_mem_cons hr
    rw [linesOf.eq_4 c r (Ne.symm hcn) fun _ he => absurd he (Ne.symm hcr)]
    by_cases h : r = []
    · rw [h]
      rfl
    · rw [ih h hrn hrr]

/-- Lines that were joined are read back, unless the last one is empty. -/
theorem lines_joinLines {ls : List String} (hn : ∀ l ∈ ls, '\n' ∉ l.toList)
    (hr : ∀ l ∈ ls, '\r' ∉ l.toList) (hlast : ∀ l ∈ ls.getLast?, l ≠ "") :
    lines (joinLines ls) = ls := by
  induction ls with
  | nil => rfl
  | cons l ls ih =>
    obtain ⟨hln, hn⟩ := List.forall_mem_cons.mp hn
    obtain ⟨hlr, hr⟩ := List.forall_mem_cons.mp hr
    cases ls with
    | nil =>
      have hne : l.toList ≠ [] := fun he => hlast l rfl (String.toList_eq_nil_iff.mp he)
      rw [joinLines, String.intercalate_singleton, lines, linesOf_inline hne hln hlr,
        List.map_singleton, String.ofList_toList]
    | cons l' ls =>
      have hrest : lines (joinLines (l' :: ls)) = l' :: ls := by
        apply ih hn hr
        rwa [List.getLast?_cons_cons] at hlast
      have hsplit : l.toList.splitOn '\n' = [l.toList] :=
        List.splitOnP_eq_singleton fun c hc => beq_false_of_ne fun he => hln (he ▸ hc)
      have htext : (joinLines (l :: l' :: ls)).toList =
          l.toList ++ '\n' :: (joinLines (l' :: ls)).toList := by
        simp [joinLines, String.intercalate_cons_cons]
      rw [lines, htext, linesOf_closed hlr, hsplit, List.map_append, List.map_singleton,
        String.ofList_toList, ← lines, hrest, List.singleton_append]

theorem newline_not_mem_lines (s : String) : ∀ l ∈ lines s, '\n' ∉ l.toList := by
  intro l hl
  obtain ⟨cs, hcs, rfl⟩ := List.mem_map.mp hl
  rw [String.toList_ofList]
  exact fun hn => (mem_of_mem_linesOf _ _ hcs _ hn).2 rfl

theorem return_not_mem_lines {s : String} (h : '\r' ∉ s.toList) :
    ∀ l ∈ lines s, '\r' ∉ l.toList := by
  intro l hl
  obtain ⟨cs, hcs, rfl⟩ := List.mem_map.mp hl
  rw [String.toList_ofList]
  exact fun hr => h (mem_of_mem_linesOf _ _ hcs _ hr).1

theorem lines_eq_nil {s : String} : lines s = [] ↔ s = "" := by
  rw [lines, List.map_eq_nil_iff, linesOf_eq_nil, String.toList_eq_nil_iff]

end GoRepl.Text
