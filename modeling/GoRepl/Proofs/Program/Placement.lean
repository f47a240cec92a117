import GoRepl.Program.Layout
import GoRepl.Proofs.Text.Lines
import Mathlib.Data.List.Induction
import Mathlib.Data.List.Nodup

/-! # Where the entries of a log stand in its program

A program is a list of parts, some of them fixed and some the lines of an entry.  Placements count
the rows along that list; everything about them is an induction on it.

* `Placement.rows`, `Placement.uncovered`: the rows of a placement, and those outside all.
* `Placement.entry_mem_of_mem`, `Placement.uncovered_ofParts`: both, for any list of parts.
* `Layout.newestPrint?_eq_some_iff`: the print that a program may run.
* `Layout.entry_mem_parts`, `Layout.filterMap_index?_parts`: the parts of the program of a log.
* `Placed`, `placed_ofLog`: the order, the rows and the look-up of the entries in the program.
-/

namespace GoRepl

/-- The index of the entry that a part belongs to. -/
def Part.index? : Part → Option Nat
  | fixed _ => none
  | entry i _ => some i

/-- The line of a part that every program has. -/
def Part.fixed? : Part → Option String
  | fixed line => some line
  | entry _ _ => none

namespace Placement

variable {above : Nat} {ps : List Part} {q : Placement}

/-- The rows that the placement covers. -/
def rows (q : Placement) (rs : List String) : List String := (rs.take q.last).drop (q.first - 1)

/-- The rows, numbered from `n`, that no placement covers. -/
def uncovered (qs : List Placement) (n : Nat) (rs : List String) : List String :=
  ((rs.zipIdx n).filter fun r => !qs.any (·.covers r.2)).map (·.1)

theorem covers_iff {line : Nat} : q.covers line = true ↔ q.first ≤ line ∧ line ≤ q.last := by
  simp [covers]

theorem map_entry_ofParts : (ofParts above ps).map (·.entry) = ps.filterMap Part.index? := by
  induction ps generalizing above with
  | nil => rfl
  | cons p ps ih =>
    cases p with
    | fixed line => exact ih
    | entry i ls => exact congrArg (i :: ·) ih

theorem bounds_of_mem (h : q ∈ ofParts above ps) :
    above < q.first ∧ q.last ≤ above + (ps.flatMap Part.lines).length := by
  induction ps generalizing above with
  | nil => cases h
  | cons p ps ih =>
    rw [List.flatMap_cons, List.length_append]
    cases p with
    | fixed line =>
      obtain ⟨hf, hl⟩ := ih h
      simp only [Part.lines, List.length_singleton]
      omega
    | entry i ls =>
      simp only [Part.lines]
      rcases List.mem_cons.mp h with rfl | h
      · simp only
        omega
      · obtain ⟨hf, hl⟩ := ih h
        omega

/-- A placement covers the lines of its part. -/
theorem entry_mem_of_mem {pre : List String} (h : q ∈ ofParts pre.length ps) :
    .entry q.entry (q.rows (pre ++ ps.flatMap Part.lines)) ∈ ps := by
  -- the lines of the parts passed join those above, so that the rows of the whole stay the same
  induction ps generalizing pre with
  | nil => cases h
  | cons p ps ih =>
    rw [List.flatMap_cons, ← List.append_assoc]
    cases p with
    | fixed line =>
      refine .tail _ (ih ?_)
      rwa [List.length_append]
    | entry i ls =>
      rcases List.mem_cons.mp h with rfl | h
      · have hrows : rows ⟨i, pre.length + 1, pre.length + ls.length⟩
            (pre ++ ls ++ ps.flatMap Part.lines) = ls := by
          rw [rows, Nat.add_sub_cancel, ← List.length_append, List.take_left, List.drop_left]
        rw [Part.lines, hrows]
        exact .head _
      · refine .tail _ (ih ?_)
        rwa [List.length_append]

theorem first_le_last (hne : ∀ i ls, Part.entry i ls ∈ ps → ls ≠ []) (h : q ∈ ofParts above ps) :
    q.first ≤ q.last := by
  induction ps generalizing above with
  | nil => cases h
  | cons p ps ih =>
    have htail := fun (i : Nat) (ls : List String) hmem => hne i ls (.tail p hmem)
    cases p with
    | fixed line => exact ih htail h
    | entry i ls =>
      rcases List.mem_cons.mp h with rfl | h
      · have hpos := List.length_pos_iff.mpr (hne i ls (.head _))
        simp only
        omega
      · exact ih htail h

theorem pairwise_ofParts : (ofParts above ps).Pairwise fun a b => a.last < b.first := by
  induction ps generalizing above with
  | nil => exact .nil
  | cons p ps ih =>
    cases p with
    | fixed line => exact ih
    | entry i ls => exact .cons (fun b hb => (bounds_of_mem hb).1) ih

/-! ## Rows that no placement covers -/

section Uncovered

variable {qs : List Placement} {n : Nat} {rs rs' : List String}

theorem uncovered_append :
    uncovered qs n (rs ++ rs') = uncovered qs n rs ++ uncovered qs (n + rs.length) rs' := by
  rw [uncovered, List.zipIdx_append, List.filter_append, List.map_append]
  rfl

theorem uncovered_eq_nil (hq : q ∈ qs) (hfirst : q.first ≤ n) (hlast : n + rs.length ≤ q.last + 1) :
    uncovered qs n rs = [] := by
  refine List.map_eq_nil_iff.mpr (List.filter_eq_nil_iff.mpr fun r hr => ?_)
  obtain ⟨hlow, hhigh, -⟩ := List.mem_zipIdx hr
  have hcovers : q.covers r.2 = true := covers_iff.mpr ⟨by omega, by omega⟩
  simpa using ⟨q, hq, hcovers⟩

theorem uncovered_eq_self (h : ∀ q ∈ qs, n + rs.length ≤ q.first) : uncovered qs n rs = rs := by
  have hall : ∀ r ∈ rs.zipIdx n, (!qs.any (·.covers r.2)) = true := by
    intro r hr
    obtain ⟨-, hhigh, -⟩ := List.mem_zipIdx hr
    simp only [Bool.not_eq_true', List.any_eq_false]
    intro q hq hcovers
    have hlow := h q hq
    have hfirst := (covers_iff.mp hcovers).1
    omega
  rw [uncovered, List.filter_eq_self.mpr hall, List.zipIdx_map_fst]

theorem uncovered_cons (h : q.last < n) : uncovered (q :: qs) n rs = uncovered qs n rs := by
  refine congrArg _ (List.filter_congr fun r hr => ?_)
  have hlow := (List.mem_zipIdx hr).1
  have hcovers : q.covers r.2 = false := by
    refine Bool.eq_false_iff.mpr fun hc => ?_
    have hlast := (covers_iff.mp hc).2
    omega
  rw [List.any_cons, hcovers, Bool.false_or]

end Uncovered

/-- Without the rows that placements cover, the fixed lines are left. -/
theorem uncovered_ofParts : uncovered (ofParts above ps) (above + 1) (ps.flatMap Part.lines) =
    ps.filterMap Part.fixed? := by
  induction ps generalizing above with
  | nil => rfl
  | cons p ps ih =>
    rw [List.flatMap_cons, uncovered_append]
    cases p with
    | fixed line =>
      have hself : uncovered (ofParts (above + 1) ps) (above + 1) [line] = [line] :=
        uncovered_eq_self fun q hq => (bounds_of_mem hq).1
      rw [ofParts, Part.lines, hself]
      exact congrArg (line :: ·) ih
    | entry i ls =>
      rw [ofParts, Part.lines, uncovered_eq_nil (.head _) (Nat.le_refl _) (by simp only; omega),
        uncovered_cons (by simp only; omega), Nat.add_right_comm]
      exact ih

end Placement

/-! ## The parts of a log's program -/

/-- The indices of the entries that satisfy `f`, in the order of the log. -/
def Log.indices (l : Log) (f : Entry → Bool) : List Nat :=
  (l.entries.zipIdx.filter (f ·.1)).map (·.2)

namespace Log

variable {l : Log} {f g : Entry → Bool} {i : Nat}

theorem mem_indices : i ∈ l.indices f ↔ ∃ e, l.entries[i]? = some e ∧ f e = true := by
  simp only [indices, List.mem_map, List.mem_filter, Prod.exists, List.mem_zipIdx_iff_getElem?]
  constructor
  · rintro ⟨e, j, ⟨hj, hf⟩, rfl⟩
    exact ⟨e, hj, hf⟩
  · rintro ⟨e, hi, hf⟩
    exact ⟨e, i, ⟨hi, hf⟩, rfl⟩

theorem nodup_indices : (l.indices f).Nodup := by
  have hsub : (l.indices f).Sublist (l.entries.zipIdx.map (·.2)) := List.filter_sublist.map _
  rw [List.zipIdx_map_snd] at hsub
  exact hsub.nodup List.nodup_range'

theorem not_mem_indices (h : ∀ e, f e = true → g e = false) (hf : i ∈ l.indices f) :
    i ∉ l.indices g := by
  intro hg
  obtain ⟨e, he, hfe⟩ := mem_indices.mp hf
  obtain ⟨e', he', hge⟩ := mem_indices.mp hg
  cases he.symm.trans he'
  rw [h e hfe] at hge
  cases hge

end Log

namespace Layout

variable {l : Log} {e : Entry} {i : Nat}

/-- What stands before each line of an entry: nothing in an import, a tab in all others. -/
def indentOf (e : Entry) : String := if e.isImport then "" else "\t"

theorem indented_eq (indent text : String) : indented indent text =
    if text = "" then [indent] else (Text.lines text).map (indent ++ ·) := by
  unfold indented
  split
  · rename_i h
    rw [if_pos (Text.lines_eq_nil.mp h)]
  · rename_i h
    rw [if_neg fun he => h (Text.lines_eq_nil.mpr he)]

theorem indented_ne_nil (indent text : String) : indented indent text ≠ [] := by
  rw [indented_eq]
  split
  · exact nofun
  · rename_i h
    exact fun hnil => h (Text.lines_eq_nil.mp (List.map_eq_nil_iff.mp hnil))

theorem newline_not_mem_indented {indent : String} (h : '\n' ∉ indent.toList) (text : String) :
    ∀ line ∈ indented indent text, '\n' ∉ line.toList := by
  rw [indented_eq]
  split
  · intro line hline
    rwa [List.mem_singleton.mp hline]
  · intro line hline
    obtain ⟨t, ht, rfl⟩ := List.mem_map.mp hline
    rw [String.toList_append, List.mem_append]
    exact not_or.mpr ⟨h, Text.newline_not_mem_lines _ _ ht⟩

/-! ### The newest print -/

/-- The entry `y` is not newer than `x`: its number is lower, or the same and it does not stand
further behind. -/
def NotNewer (y x : Entry × Nat) : Prop :=
  y.1.sequence < x.1.sequence ∨ (y.1.sequence = x.1.sequence ∧ y.2 ≤ x.2)

section Newest

variable {x y : Entry × Nat} {best : Option (Entry × Nat)} {ps : List (Entry × Nat)}

theorem NotNewer.antisymm (hxy : NotNewer x y) (hyx : NotNewer y x) : x.2 = y.2 := by
  unfold NotNewer at hxy hyx
  omega

theorem newer_eq_some (h : newer best y = some x) :
    (x = y ∧ ∀ b ∈ best, b.1.sequence ≤ y.1.sequence) ∨
      (best = some x ∧ y.1.sequence < x.1.sequence) := by
  unfold newer at h
  split at h
  · rename_i hlater
    subst h
    exact .inr ⟨rfl, of_decide_eq_true hlater⟩
  · rename_i hlater
    cases h
    refine .inl ⟨rfl, fun b hb => Nat.le_of_not_lt fun hlt => hlater ?_⟩
    rw [Option.mem_def.mp hb]
    exact decide_eq_true hlt

theorem exists_foldl_newer (h : ps ≠ []) : ∃ x, ps.foldl newer none = some x := by
  induction ps using List.reverseRecOn with
  | nil => exact absurd rfl h
  | append_singleton ps p ih =>
    rw [List.foldl_append, List.foldl_cons, List.foldl_nil, newer]
    cases ps.foldl newer none with
    | none => exact ⟨p, rfl⟩
    | some b =>
      split
      · exact ⟨b, rfl⟩
      · exact ⟨p, rfl⟩

/-- Of entries in the order of a log the newest one is found. -/
theorem newest_of_foldl (hps : ps.Pairwise fun y y' => y.2 < y'.2)
    (h : ps.foldl newer none = some x) : x ∈ ps ∧ ∀ y ∈ ps, NotNewer y x := by
  induction ps using List.reverseRecOn generalizing x with
  | nil => cases h
  | append_singleton ps p ih =>
    obtain ⟨hfront, -, hbehind⟩ := List.pairwise_append.mp hps
    rw [List.foldl_append, List.foldl_cons, List.foldl_nil] at h
    rw [List.forall_mem_append, List.forall_mem_singleton]
    rcases newer_eq_some h with ⟨rfl, hbest⟩ | ⟨hbest, hlt⟩
    · refine ⟨List.mem_append_right _ (.head _), fun y hy => ?_, .inr ⟨rfl, Nat.le_refl _⟩⟩
      obtain ⟨b, hb⟩ := exists_foldl_newer (List.ne_nil_of_mem hy)
      have hyb := (ih hfront hb).2 y hy
      have hbx := hbest b hb
      have hindex := hbehind y hy x (.head _)
      unfold NotNewer at hyb ⊢
      omega
    · obtain ⟨hmem, hall⟩ := ih hfront hbest
      exact ⟨List.mem_append_left _ hmem, hall, .inl hlt⟩

end Newest

/-- The newest print of a log is the one that no other is newer than. -/
theorem newestPrint?_eq_some_iff {x : Entry × Nat} : newestPrint? l = some x ↔
    (l.entries[x.2]? = some x.1 ∧ x.1.isPrint = true) ∧
      ∀ y : Entry × Nat, l.entries[y.2]? = some y.1 → y.1.isPrint = true → NotNewer y x := by
  have hmem (y : Entry × Nat) : y ∈ l.entries.zipIdx.filter (·.1.isPrint) ↔
      l.entries[y.2]? = some y.1 ∧ y.1.isPrint = true := by
    rw [List.mem_filter, List.mem_zipIdx_iff_getElem?]
  have hps : (l.entries.zipIdx.filter (·.1.isPrint)).Pairwise fun y y' => y.2 < y'.2 := by
    refine List.Pairwise.filter _ (List.pairwise_map.mp ?_)
    rw [List.zipIdx_map_snd]
    exact List.pairwise_lt_range'
  constructor
  · intro h
    obtain ⟨hx, hall⟩ := newest_of_foldl hps h
    exact ⟨(hmem x).mp hx, fun y hget hprint => hall y ((hmem y).mpr ⟨hget, hprint⟩)⟩
  · intro h
    obtain ⟨hx, hall⟩ := h
    obtain ⟨x', hx'⟩ := exists_foldl_newer (List.ne_nil_of_mem ((hmem x).mpr hx))
    obtain ⟨hmem', hall'⟩ := newest_of_foldl hps hx'
    obtain ⟨hget', hprint'⟩ := (hmem x').mp hmem'
    have hindex := (hall x' hget' hprint').antisymm (hall' x ((hmem x).mpr hx))
    have hentry : x'.1 = x.1 := Option.some.inj (hget'.symm.trans (hindex ▸ hx.1))
    exact hx'.trans (congrArg some (Prod.ext hentry hindex))

theorem echo?_eq_some {x : Entry × Nat} (h : echo? l = some x) :
    l.entries[x.2]? = some x.1 ∧ x.1.isPrint = true := by
  unfold echo? at h
  split at h
  · rename_i y hy
    split at h
    · cases h
      exact (newestPrint?_eq_some_iff.mp hy).1
    · cases h
  · cases h

theorem not_isPrint_of_isImport (h : e.isImport = true) : e.isPrint = false := by
  unfold Entry.isImport at h
  unfold Entry.isPrint
  split at h <;> simp_all

/-- A part of an entry consists of the entry's lines behind its indent. -/
theorem entry_mem_parts {ls : List String} (h : Part.entry i ls ∈ parts l) :
    ∃ e, l.entries[i]? = some e ∧ ls = indented (indentOf e) e.text := by
  have hpart : ∀ {es : List (Entry × Nat)} {indent : String},
      (∀ x ∈ es, l.entries[x.2]? = some x.1 ∧ indentOf x.1 = indent) →
        Part.entry i ls ∈ es.map (part indent) →
          ∃ e, l.entries[i]? = some e ∧ ls = indented (indentOf e) e.text := by
    intro es indent hes hmem
    obtain ⟨x, hx, heq⟩ := List.mem_map.mp hmem
    cases heq
    obtain ⟨hget, hindent⟩ := hes x hx
    exact ⟨x.1, hget, hindent ▸ rfl⟩
  have hfixed : ∀ {lines : List String}, Part.entry i ls ∉ lines.map Part.fixed := by
    intro lines hmem
    obtain ⟨line, -, heq⟩ := List.mem_map.mp hmem
    cases heq
  simp only [parts, List.mem_append] at h
  obtain ((((h | h) | h) | h) | h) | h := h
  · exact absurd h hfixed
  · refine hpart (fun x hx => ?_) h
    obtain ⟨hmem, himport⟩ := List.mem_filter.mp hx
    exact ⟨List.mem_zipIdx_iff_getElem?.mp hmem, if_pos himport⟩
  · exact absurd h hfixed
  · refine hpart (fun x hx => ?_) h
    obtain ⟨hmem, hbody⟩ := List.mem_filter.mp hx
    refine ⟨List.mem_zipIdx_iff_getElem?.mp hmem, if_neg ?_⟩
    simp_all
  · refine hpart (fun x hx => ?_) h
    obtain ⟨hget, hprint⟩ := echo?_eq_some (Option.mem_toList.mp hx)
    refine ⟨hget, if_neg fun himport => ?_⟩
    rw [not_isPrint_of_isImport himport] at hprint
    cases hprint
  · exact absurd h hfixed

theorem filterMap_index?_fixed (lines : List String) :
    (lines.map Part.fixed).filterMap Part.index? = [] := by
  rw [List.filterMap_map]
  exact List.filterMap_eq_nil_iff.mpr fun _ _ => rfl

theorem filterMap_index?_part (indent : String) (es : List (Entry × Nat)) :
    (es.map (part indent)).filterMap Part.index? = es.map (·.2) := by
  rw [List.filterMap_map]
  exact congrFun List.filterMap_eq_map es

theorem filterMap_fixed?_fixed (lines : List String) :
    (lines.map Part.fixed).filterMap Part.fixed? = lines := by
  rw [List.filterMap_map]
  exact List.filterMap_some

theorem filterMap_fixed?_part (indent : String) (es : List (Entry × Nat)) :
    (es.map (part indent)).filterMap Part.fixed? = [] := by
  rw [List.filterMap_map]
  exact List.filterMap_eq_nil_iff.mpr fun _ _ => rfl

theorem filterMap_index?_parts : (parts l).filterMap Part.index? =
    l.indices (·.isImport) ++ l.indices (fun e => !e.isImport && !e.isPrint) ++
      ((echo? l).map (·.2)).toList := by
  simp only [parts, List.filterMap_append, filterMap_index?_fixed, filterMap_index?_part,
    List.append_nil, List.nil_append, Option.toList_map]
  rfl

theorem filterMap_fixed?_parts :
    (parts l).filterMap Part.fixed? = header ++ helpers ++ footer := by
  simp only [parts, List.filterMap_append, filterMap_fixed?_fixed, filterMap_fixed?_part,
    List.append_nil]

theorem newline_not_mem_parts : ∀ line ∈ (parts l).flatMap Part.lines, '\n' ∉ line.toList := by
  intro line hline
  obtain ⟨p, hp, hmem⟩ := List.mem_flatMap.mp hline
  cases p with
  | fixed s =>
    have hfixed : ∀ s ∈ header ++ helpers ++ footer, '\n' ∉ s.toList := by decide +kernel
    have hs : s ∈ (parts l).filterMap Part.fixed? := List.mem_filterMap.mpr ⟨_, hp, rfl⟩
    rw [filterMap_fixed?_parts] at hs
    rw [Part.lines, List.mem_singleton] at hmem
    exact hmem ▸ hfixed s hs
  | entry i ls =>
    obtain ⟨e, -, rfl⟩ := entry_mem_parts hp
    refine newline_not_mem_indented ?_ _ _ hmem
    unfold indentOf
    split <;> decide

end Layout

/-! ## The program of a log -/

/-- The rows of the program's text. -/
def Program.rows (p : Program) : List String := Text.rows p.text

namespace Program

variable {l : Log} {q : Placement}

theorem rows_ofLog : (ofLog l).rows = (Layout.parts l).flatMap Part.lines :=
  Text.rows_unlines Layout.newline_not_mem_parts

theorem order_ofLog : (ofLog l).placements.map (·.entry) = l.indices (·.isImport) ++
    l.indices (fun e => !e.isImport && !e.isPrint) ++ ((Layout.echo? l).map (·.2)).toList :=
  Placement.map_entry_ofParts.trans Layout.filterMap_index?_parts

theorem once_ofLog : ((ofLog l).placements.map (·.entry)).Nodup := by
  rw [order_ofLog, List.append_assoc]
  have hecho : ∀ i ∈ ((Layout.echo? l).map (·.2)).toList, i ∈ l.indices (·.isPrint) := by
    intro i hi
    obtain ⟨x, hx, rfl⟩ := Option.map_eq_some_iff.mp (Option.mem_toList.mp hi)
    exact Log.mem_indices.mpr ⟨x.1, Layout.echo?_eq_some hx⟩
  refine List.nodup_append.mpr ⟨Log.nodup_indices, List.nodup_append.mpr
    ⟨Log.nodup_indices, ?_, fun i hi j hj he => ?_⟩, fun i hi j hj he => ?_⟩
  · cases Layout.echo? l <;> simp
  · refine Log.not_mem_indices (fun e hbody => ?_) hi (he ▸ hecho j hj)
    simp_all
  · subst he
    rcases List.mem_append.mp hj with hj | hj
    · exact Log.not_mem_indices (fun e himport => by simp [himport]) hi hj
    · exact Log.not_mem_indices (fun e => Layout.not_isPrint_of_isImport) hi (hecho i hj)

theorem increasing_ofLog :
    (ofLog l).placements.Pairwise fun a b => a.last < b.first := Placement.pairwise_ofParts

theorem range_ofLog (h : q ∈ (ofLog l).placements) :
    1 ≤ q.first ∧ q.first ≤ q.last ∧ q.last ≤ (ofLog l).rows.length := by
  obtain ⟨hfirst, hlast⟩ := Placement.bounds_of_mem h
  refine ⟨hfirst, Placement.first_le_last (fun i ls hmem => ?_) h, ?_⟩
  · obtain ⟨e, -, rfl⟩ := Layout.entry_mem_parts hmem
    exact Layout.indented_ne_nil _ _
  · rw [rows_ofLog]
    omega

/-- A placement covers the lines of its entry behind the indent. -/
theorem rows_of_mem (h : q ∈ (ofLog l).placements) : ∃ e, l.entries[q.entry]? = some e ∧
    q.rows (ofLog l).rows = Layout.indented (Layout.indentOf e) e.text := by
  rw [rows_ofLog]
  exact Layout.entry_mem_parts (@Placement.entry_mem_of_mem (Layout.parts l) q [] h)

theorem uncovered_ofLog : Placement.uncovered (ofLog l).placements 1 (ofLog l).rows =
    Layout.header ++ Layout.helpers ++ Layout.footer := by
  rw [rows_ofLog, ← Layout.filterMap_fixed?_parts]
  exact Placement.uncovered_ofParts

/-! ## Looking up rows and entries -/

theorem find?_eq_of_unique {qs : List Placement} {f : Placement → Bool} (hq : q ∈ qs)
    (hf : f q = true) (h : ∀ q' ∈ qs, f q' = true → q' = q) : qs.find? f = some q := by
  cases hfind : qs.find? f with
  | none => exact absurd hf (List.find?_eq_none.mp hfind q hq)
  | some q' => rw [h q' (List.mem_of_find?_eq_some hfind) (List.find?_some hfind)]

theorem eq_of_covers {q' : Placement} {line : Nat} (h : q ∈ (ofLog l).placements)
    (h' : q' ∈ (ofLog l).placements) (hq : q.covers line = true) (hq' : q'.covers line = true) :
    q' = q := by
  obtain ⟨hfirst, hlast⟩ := Placement.covers_iff.mp hq
  obtain ⟨hfirst', hlast'⟩ := Placement.covers_iff.mp hq'
  obtain ⟨i, hi, rfl⟩ := List.getElem_of_mem h
  obtain ⟨j, hj, rfl⟩ := List.getElem_of_mem h'
  have hpair := List.pairwise_iff_getElem.mp (increasing_ofLog (l := l))
  rcases Nat.lt_trichotomy i j with hij | rfl | hij
  · have := hpair i j hi hj hij
    omega
  · rfl
  · have := hpair j i hj hi hij
    omega

theorem eq_of_entry {q' : Placement} (h : q ∈ (ofLog l).placements)
    (h' : q' ∈ (ofLog l).placements) (he : q'.entry = q.entry) : q' = q :=
  List.inj_on_of_nodup_map once_ofLog h' h he

theorem entryAt?_eq_some {line i : Nat} : (ofLog l).entryAt? line = some i ↔
    ∃ q ∈ (ofLog l).placements, q.entry = i ∧ q.first ≤ line ∧ line ≤ q.last := by
  unfold entryAt?
  rw [Option.map_eq_some_iff]
  constructor
  · rintro ⟨q, hfind, rfl⟩
    have hcovers : q.covers line = true := by simpa only using List.find?_some hfind
    exact ⟨q, List.mem_of_find?_eq_some hfind, rfl, Placement.covers_iff.mp hcovers⟩
  · rintro ⟨q, hq, rfl, hrange⟩
    have hcovers := Placement.covers_iff.mpr hrange
    exact ⟨q, find?_eq_of_unique hq hcovers fun q' h' => eq_of_covers hq h' hcovers, rfl⟩

theorem lineOf?_entry (h : q ∈ (ofLog l).placements) :
    (ofLog l).lineOf? q.entry = some q.first := by
  unfold lineOf?
  have hfind : (ofLog l).placements.find? (·.entry == q.entry) = some q :=
    find?_eq_of_unique h (beq_self_eq_true _) fun q' h' he => eq_of_entry h h' (eq_of_beq he)
  rw [hfind]
  rfl

end Program

/-- Where the entries of a log stand in a program: they follow one another in the order imports,
statements, print; their rows are their lines behind the indent; and rows are looked up and found
again. -/
structure Placed (l : Log) (p : Program) : Prop where
  /-- The text consists of its rows. -/
  text : Text.unlines p.rows = p.text
  order : ∃ echo : Option Nat, (∀ i ∈ echo, ∃ e, l.entries[i]? = some e ∧ e.isPrint = true) ∧
    p.placements.map (·.entry) = l.indices (·.isImport) ++
      l.indices (fun e => !e.isImport && !e.isPrint) ++ echo.toList
  once : (p.placements.map (·.entry)).Nodup
  range : ∀ q ∈ p.placements, 1 ≤ q.first ∧ q.first ≤ q.last ∧ q.last ≤ p.rows.length
  increasing : p.placements.Pairwise fun a b => a.last < b.first
  lines : ∀ q ∈ p.placements, ∃ e, l.entries[q.entry]? = some e ∧
    q.rows p.rows = if e.text = "" then [Layout.indentOf e]
      else (Text.lines e.text).map (Layout.indentOf e ++ ·)
  /-- Without the entries it is the program of the empty log. -/
  rest : Text.unlines (Placement.uncovered p.placements 1 p.rows) = (Program.ofLog {}).text
  entryAt : ∀ line i, p.entryAt? line = some i ↔
    ∃ q ∈ p.placements, q.entry = i ∧ q.first ≤ line ∧ line ≤ q.last
  lineOf : ∀ q ∈ p.placements, p.lineOf? q.entry = some q.first ∧
    (p.lineOf? q.entry).bind p.entryAt? = some q.entry

/-- The entries of every log stand in its program as said. -/
theorem placed_ofLog (l : Log) : Placed l (Program.ofLog l) where
  text := by
    rw [Program.rows_ofLog]
    rfl
  order := by
    refine ⟨(Layout.echo? l).map (·.2), fun i hi => ?_, Program.order_ofLog⟩
    obtain ⟨x, hx, rfl⟩ := Option.map_eq_some_iff.mp hi
    exact ⟨x.1, Layout.echo?_eq_some hx⟩
  once := Program.once_ofLog
  range _ := Program.range_ofLog
  increasing := Program.increasing_ofLog
  lines q hq := by
    obtain ⟨e, he, hrows⟩ := Program.rows_of_mem hq
    exact ⟨e, he, hrows.trans (Layout.indented_eq ..)⟩
  rest := by
    rw [Program.uncovered_ofLog]
    rfl
  entryAt _ _ := Program.entryAt?_eq_some
  lineOf q hq := by
    have hline := Program.lineOf?_entry hq
    have hrange := Program.range_ofLog hq
    refine ⟨hline, ?_⟩
    rw [hline]
    exact Program.entryAt?_eq_some.mpr ⟨q, hq, rfl, Nat.le_refl _, hrange.2.1⟩

example :
    let l : Log := ⟨[⟨1, .statement, "a()\nb()"⟩, ⟨2, .imports ["os"], "import \"os\""⟩]⟩
    (Program.ofLog l).placements = [⟨1, 4, 4⟩, ⟨0, 17, 18⟩] := by decide +kernel

end GoRepl
