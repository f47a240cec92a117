import GoRepl.Diagnostics.Noise
import GoRepl.Proofs.Diagnostics.Location
import GoRepl.Proofs.Log.Submission
import GoRepl.Proofs.Text.Trim

/-! # Compiler output with the fragments it is about

Of the output of a compiler all lines are kept but headers and blank lines at the ends.  Below a
line that names a place in the program stands the fragment that is there.

* `Keeps`: the lines that are kept.
* `Attributable`: the logs whose programs are built.
* `Submissions.exists_written`: in front of each entry of a submission stands what the user wrote.
* `Tells`, `source?_tells`: the entry whose text is told for another one.
* `Annotated`, `annotate_filterNoise`: the kept lines and those below them.
-/

namespace GoRepl

/-- What the user wrote in the submission `n`. -/
def Log.written (l : Log) (n : Nat) : List Entry :=
  l.entries.filter fun e => e.visible && e.sequence == n

namespace Log

variable {es g : List Entry} {n : Nat}

theorem written_append (es g : List Entry) (n : Nat) :
    (Log.mk (es ++ g)).written n = (Log.mk es).written n ++ (Log.mk g).written n :=
  List.filter_append ..

theorem written_eq_nil (h : ∀ e ∈ es, e.visible = false ∨ e.sequence ≠ n) :
    (Log.mk es).written n = [] := by
  refine List.filter_eq_nil_iff.mpr fun e he => ?_
  rcases h e he with hv | hs <;> simp [*]

end Log

/-- Before each entry of a submission, or at it, stands the one entry that the user wrote in it. -/
theorem Submissions.exists_written {n : Nat} {es : List Entry} (h : Submissions n es) {i : Nat}
    {e : Entry} (he : es[i]? = some e) :
    ∃ front src rest, es.take (i + 1) = front ++ src :: rest ∧ src.visible = true ∧
      src.sequence = e.sequence ∧
      (∀ e' ∈ rest, e'.visible = false ∧ e'.sequence = e.sequence) ∧
      (Log.mk es).written e.sequence = [src] := by
  induction h with
  | none => cases he
  | @next n es g before last ih =>
    rw [Log.written_append]
    by_cases hi : i < es.length
    · rw [List.getElem?_append_left hi] at he
      obtain ⟨front, src, rest, htake, hv, hs, hrest, hwritten⟩ := ih he
      have hle : e.sequence ≤ n := before.sequence_le (List.mem_of_getElem? he)
      have hg : (Log.mk g).written e.sequence = [] := by
        refine Log.written_eq_nil fun e' he' => .inr ?_
        have hlast := last.sequence_eq he'
        omega
      refine ⟨front, src, rest, ?_, hv, hs, hrest, by rw [hwritten, hg, List.append_nil]⟩
      rw [List.take_append_of_le_length hi, htake]
    · have hge : es.length ≤ i := Nat.le_of_not_lt hi
      rw [List.getElem?_append_right hge] at he
      have hseq : e.sequence = n + 1 := last.sequence_eq (List.mem_of_getElem? he)
      have hes : (Log.mk es).written e.sequence = [] := by
        refine Log.written_eq_nil fun e' he' => .inr ?_
        have hle := before.sequence_le he'
        omega
      obtain ⟨src, rest, rfl, hv, hrest⟩ := last.visible_eq
      have hsrc : src.sequence = n + 1 := last.sequence_eq List.mem_cons_self
      refine ⟨es, src, rest.take (i - es.length), ?_, hv, hsrc.trans hseq.symm, ?_, ?_⟩
      · rw [List.take_append, List.take_of_length_le (by omega), Nat.succ_sub hge,
          List.take_succ_cons]
      · intro e' he'
        have hmem : e' ∈ rest := List.mem_of_mem_take he'
        exact ⟨hrest e' hmem, (last.sequence_eq (List.mem_cons_of_mem _ hmem)).trans hseq.symm⟩
      · have htail : (Log.mk rest).written e.sequence = [] :=
          Log.written_eq_nil fun e' he' => .inl (hrest e' he')
        have hhead : (Log.mk (src :: rest)).written e.sequence =
            src :: (Log.mk rest).written e.sequence :=
          List.filter_cons_of_pos (by simp [hv, hsrc, hseq])
        rw [hes, hhead, htail, List.nil_append]

namespace Diagnostics

/-! ## The fragment behind an entry -/

/-- The logs whose programs are built consist of submissions; behind them may stand the print of a
value that is printed once. -/
inductive Attributable : Log → Option Entry → Prop
  | submissions {n : Nat} {es : List Entry} (entered : Submissions n es) : Attributable ⟨es⟩ none
  | printing {n : Nat} {es : List Entry} (entered : Submissions n es) {print : Entry}
      (hidden : print.visible = false) (fresh : print.sequence = n + 1) :
      Attributable ⟨es ++ [print]⟩ (some print)

/-- The entry whose text is told for the entry `e`: the one that the user wrote in its submission,
and for the print of a value that is printed once this print. -/
def Tells (l : Log) (printed : Option Entry) (e src : Entry) : Prop :=
  if printed = some e then src = e else l.written e.sequence = [src]

variable {l : Log} {printed : Option Entry} {i : Nat} {e src : Entry}

theorem source?_of_take {front rest : List Entry} (he : l.entries[i]? = some e)
    (htake : l.entries.take (i + 1) = front ++ src :: rest) (hv : src.visible = true)
    (hs : src.sequence = e.sequence)
    (hrest : ∀ e' ∈ rest, e'.visible = false ∧ e'.sequence = e.sequence) :
    source? l i = some src := by
  rw [List.take_add_one, he, Option.toList_some] at htake
  unfold source?
  rw [he, Option.map_some]
  rcases List.eq_nil_or_concat rest with rfl | ⟨mid, e', rfl⟩
  · -- the entry is what the user wrote
    obtain ⟨-, hlast⟩ := List.append_inj' htake rfl
    obtain rfl : e = src := List.singleton_inj.mp hlast
    rw [if_pos hv]
  · rw [List.concat_eq_append, ← List.cons_append, ← List.append_assoc] at htake
    obtain ⟨hfront, hlast⟩ := List.append_inj' htake rfl
    obtain rfl : e = e' := List.singleton_inj.mp hlast
    have hhidden : e.visible = false := (hrest e (by simp)).1
    have hmid : ∀ e' ∈ mid.reverse, (e'.sequence == e.sequence) = true := by
      intro e' he'
      have hseq := (hrest e' (by simp_all)).2
      exact beq_of_eq hseq
    have hnone : mid.reverse.find? (·.visible) = none := by
      refine List.find?_eq_none.mpr fun e' he' => ?_
      have hv' := (hrest e' (by simp_all)).1
      simp [hv']
    have hback : (l.entries.take i).reverse = mid.reverse ++ src :: front.reverse := by
      rw [hfront]
      simp
    rw [if_neg (by simp [hhidden]), hback, List.takeWhile_append_of_pos hmid,
      List.takeWhile_cons_of_pos (by simp [hs]), List.find?_append, hnone, Option.none_or,
      List.find?_cons_of_pos hv, Option.getD_some]

/-- A print that starts a submission of its own stands for itself. -/
theorem source?_of_fresh (he : l.entries[i]? = some e) (hhidden : e.visible = false)
    (hfresh : ∀ e' ∈ l.entries.take i, e'.sequence ≠ e.sequence) : source? l i = some e := by
  have hnone : (l.entries.take i).reverse.takeWhile (·.sequence == e.sequence) = [] := by
    cases hback : (l.entries.take i).reverse with
    | nil => rfl
    | cons e' r =>
      have hmem : e' ∈ l.entries.take i := List.mem_reverse.mp (hback ▸ List.mem_cons_self)
      exact List.takeWhile_cons_of_neg (by simpa using hfresh e' hmem)
  unfold source?
  rw [he, Option.map_some, if_neg (by simp [hhidden]), hnone]
  rfl

/-- For every entry of such a log the right text is told. -/
theorem source?_tells (h : Attributable l printed) (he : l.entries[i]? = some e) :
    ∃ src, source? l i = some src ∧ Tells l printed e src := by
  cases h with
  | submissions entered =>
    obtain ⟨front, src, rest, htake, hv, hs, hrest, hwritten⟩ := entered.exists_written he
    exact ⟨src, source?_of_take he htake hv hs hrest, hwritten⟩
  | @printing n es entered print hidden fresh =>
    by_cases hi : i < es.length
    · have hold : es[i]? = some e := by rwa [List.getElem?_append_left hi] at he
      have hle : e.sequence ≤ n := entered.sequence_le (List.mem_of_getElem? hold)
      obtain ⟨front, src, rest, htake, hv, hs, hrest, hwritten⟩ := entered.exists_written hold
      have htake' : (es ++ [print]).take (i + 1) = front ++ src :: rest := by
        rw [List.take_append_of_le_length hi, htake]
      have hne : some print ≠ some e := by
        rintro ⟨⟩
        omega
      have hprint : (Log.mk [print]).written e.sequence = [] :=
        Log.written_eq_nil (by simp [hidden])
      refine ⟨src, source?_of_take he htake' hv hs hrest, ?_⟩
      rw [Tells, if_neg hne, Log.written_append, hwritten, hprint, List.append_nil]
    · have hlt : i < (es ++ [print]).length := (List.getElem?_eq_some_iff.mp he).1
      obtain rfl : i = es.length := by
        simp at hlt
        omega
      have hlast : (es ++ [print])[es.length]? = some print := List.getElem?_concat_length
      obtain rfl : e = print := Option.some.inj (he.symm.trans hlast)
      refine ⟨e, source?_of_fresh he hidden fun e' he' => ?_, by rw [Tells, if_pos rfl]⟩
      rw [List.take_left] at he'
      have hle := entered.sequence_le he'
      omega

/-! ## Notes below lines -/

/-- The lines below a line that names a place in the program: the first line of what is there. -/
inductive Annotated (p : Program) (l : Log) (printed : Option Entry) :
    List String → List String → Prop
  | nil : Annotated p l printed [] []
  | plain {line : String} {kept out : List String} (unnamed : ∀ q ∈ p.placements, ¬Names line q)
      (rest : Annotated p l printed kept out) :
      Annotated p l printed (line :: kept) (line :: out)
  | noted {line first : String} {kept out : List String} {q : Placement} {e src : Entry}
      (placed : q ∈ p.placements) (named : Names line q) (entry : l.entries[q.entry]? = some e)
      (told : Tells l printed e src) (starts : (Text.lines src.text).head? = some first)
      (rest : Annotated p l printed kept out) :
      Annotated p l printed (line :: kept) (line :: ("    at: " ++ first) :: out)

/-- Nothing that may be told is empty. -/
def Worded (l : Log) (printed : Option Entry) : Prop :=
  ∀ e ∈ l.entries, e.visible = true ∨ printed = some e → e.text ≠ ""

theorem Tells.text_ne (h : Tells l printed e src) (he : e ∈ l.entries) (hw : Worded l printed) :
    src.text ≠ "" := by
  unfold Tells at h
  split at h
  · subst h
    exact hw src he (.inr ‹_›)
  · have hsrc : src ∈ l.written e.sequence := by simp [h]
    obtain ⟨hmem, hv⟩ := List.mem_filter.mp hsrc
    exact hw src hmem (.inl (Bool.and_eq_true_iff.mp hv).1)

/-- A line names the place of an entry just if an entry is found for it. -/
theorem entryAt?_eq_some {line : String} :
    ((location? line.toList).bind lineNumber?).bind (Program.ofLog l).entryAt? = some i ↔
      ∃ q ∈ (Program.ofLog l).placements, q.entry = i ∧ Names line q := by
  simp only [Option.bind_eq_some_iff, location?_eq_some, lineNumber?_eq_some,
    Program.entryAt?_eq_some, Names]
  constructor
  · rintro ⟨n, ⟨digits, hc, hs⟩, q, hq, hi, hrange⟩
    exact ⟨q, hq, hi, digits, n, hc, hs, hrange⟩
  · rintro ⟨q, hq, hi, digits, n, hc, hs, hrange⟩
    exact ⟨n, ⟨digits, hc, hs⟩, q, hq, hi, hrange⟩

theorem note?_eq (p : Program) (l : Log) (line : String) : note? p l line =
    (((location? line.toList).bind lineNumber?).bind p.entryAt?).bind fun i =>
      (fragment? l i).map ("    at: " ++ ·) := by
  simp [note?, Option.bind_assoc, Option.map_eq_bind]

/-- Below a line stands what is told for the entry at the place that it names, and nothing if it
names none. -/
theorem note?_cases (h : Attributable l printed) (hw : Worded l printed) (line : String) :
    (note? (Program.ofLog l) l line = none ∧
      ∀ q ∈ (Program.ofLog l).placements, ¬Names line q) ∨
    ∃ q e src first, q ∈ (Program.ofLog l).placements ∧ Names line q ∧
      l.entries[q.entry]? = some e ∧ Tells l printed e src ∧
      (Text.lines src.text).head? = some first ∧
      note? (Program.ofLog l) l line = some ("    at: " ++ first) := by
  rw [note?_eq]
  cases hat : ((location? line.toList).bind lineNumber?).bind (Program.ofLog l).entryAt? with
  | none =>
    refine .inl ⟨rfl, fun q hq hnames => ?_⟩
    rw [entryAt?_eq_some.mpr ⟨q, hq, rfl, hnames⟩] at hat
    cases hat
  | some i =>
    obtain ⟨q, hq, rfl, hnames⟩ := entryAt?_eq_some.mp hat
    obtain ⟨e, he, -⟩ := Program.rows_of_mem hq
    obtain ⟨src, hsrc, htells⟩ := source?_tells h he
    have hne : src.text ≠ "" := htells.text_ne (List.mem_of_getElem? he) hw
    cases hlines : Text.lines src.text with
    | nil => exact absurd (Text.lines_eq_nil.mp hlines) hne
    | cons first rest =>
      refine .inr ⟨q, e, src, first, hq, hnames, he, htells, by rw [hlines]; rfl, ?_⟩
      simp [fragment?, hsrc, hlines]

theorem annotated_notes (h : Attributable l printed) (hw : Worded l printed) (kept : List String) :
    Annotated (Program.ofLog l) l printed kept
      (kept.flatMap fun line => line :: (note? (Program.ofLog l) l line).toList) := by
  induction kept with
  | nil => exact .nil
  | cons line kept ih =>
    rw [List.flatMap_cons]
    obtain ⟨hnone, hunnamed⟩ | ⟨q, e, src, first, hq, hnames, he, htells, hfirst, hsome⟩ :=
      note?_cases h hw line
    · rw [hnone]
      exact .plain hunnamed ih
    · rw [hsome]
      exact .noted hq hnames he htells hfirst ih

/-- No line has a line feed in it. -/
theorem Annotated.newline_not_mem {p : Program} {kept out : List String}
    (h : Annotated p l printed kept out) (hk : ∀ line ∈ kept, '\n' ∉ line.toList) :
    ∀ line ∈ out, '\n' ∉ line.toList := by
  induction h with
  | nil => exact nofun
  | plain _ _ ih =>
    obtain ⟨hline, hk⟩ := List.forall_mem_cons.mp hk
    exact List.forall_mem_cons.mpr ⟨hline, ih hk⟩
  | @noted _ first _ _ _ _ src _ _ _ _ starts _ ih =>
    obtain ⟨hline, hk⟩ := List.forall_mem_cons.mp hk
    have hfirst : '\n' ∉ first.toList :=
      Text.newline_not_mem_lines src.text first (List.mem_of_mem_head? starts)
    refine List.forall_mem_cons.mpr ⟨hline, List.forall_mem_cons.mpr ⟨?_, ih hk⟩⟩
    simp [String.toList_append, hfirst]

/-! ## Lines that are kept -/

/-- The lines of a text without those that start with a number sign, and without blank lines at both
ends. -/
structure Keeps (text : String) (kept : List String) : Prop where
  lines : ∃ front back, (Text.lines text).filter (·.toList.head? ≠ some '#') =
    front ++ kept ++ back ∧ ∀ line ∈ front ++ back, Text.isBlankText line = true
  first : ∀ line ∈ kept.head?, Text.isBlankText line = false
  last : ∀ line ∈ kept.getLast?, Text.isBlankText line = false

theorem trimLines_eq (ls : List String) :
    trimLines ls = (ls.dropWhile Text.isBlankText).rdropWhile Text.isBlankText := rfl

theorem keeps_trimLines (text : String) :
    Keeps text (trimLines ((Text.lines text).filter (!isHeader ·))) := by
  have hfilter : (Text.lines text).filter (·.toList.head? ≠ some '#') =
      (Text.lines text).filter (!isHeader ·) :=
    List.filter_congr fun line _ => by simp [isHeader, Bool.beq_eq_decide_eq]
  generalize hls : (Text.lines text).filter (!isHeader ·) = ls at hfilter ⊢
  rw [trimLines_eq]
  refine ⟨⟨ls.takeWhile Text.isBlankText,
    (ls.dropWhile Text.isBlankText).rtakeWhile Text.isBlankText, ?_, ?_⟩, ?_, ?_⟩
  · rw [hfilter, List.append_assoc, List.rdropWhile_append_rtakeWhile,
      List.takeWhile_append_dropWhile]
  · intro line hline
    rcases List.mem_append.mp hline with hfront | hback
    · exact List.mem_takeWhile_imp hfront
    · exact List.mem_rtakeWhile_imp hback
  · exact fun line hline => Text.head_of_trimmed hline
  · exact fun line hline => Text.last_of_trimmed hline

theorem Keeps.mem_lines {text : String} {kept : List String} (h : Keeps text kept) :
    ∀ line ∈ kept, line ∈ Text.lines text := by
  obtain ⟨⟨front, back, hlines, -⟩, -, -⟩ := h
  intro line hline
  have hmem : line ∈ (Text.lines text).filter (·.toList.head? ≠ some '#') := by
    rw [hlines]
    simp [hline]
  exact (List.mem_filter.mp hmem).1

/-- Of compiler output without carriage returns the kept lines are shown, and below each the first
line of the fragment that it is about. -/
theorem annotate_filterNoise (h : Attributable l printed) (hw : Worded l printed) {text : String}
    (hr : '\r' ∉ text.toList) :
    ∃ kept out, Keeps text kept ∧ Annotated (Program.ofLog l) l printed kept out ∧
      (∀ line ∈ out, '\n' ∉ line.toList) ∧
      annotate (filterNoise text) (Program.ofLog l) l = Text.joinLines out := by
  have hkeeps := keeps_trimLines text
  have hannotated := annotated_notes h hw (trimLines ((Text.lines text).filter (!isHeader ·)))
  generalize hkept : trimLines ((Text.lines text).filter (!isHeader ·)) = kept at hkeeps hannotated
  have hn : ∀ line ∈ kept, '\n' ∉ line.toList := fun line hline =>
    Text.newline_not_mem_lines text line (hkeeps.mem_lines line hline)
  have hread : Text.lines (Text.joinLines kept) = kept := by
    apply Text.lines_joinLines hn
    · exact fun line hline => Text.return_not_mem_lines hr line (hkeeps.mem_lines line hline)
    · rintro line hline rfl
      have hblank := hkeeps.last "" hline
      cases hblank
  refine ⟨kept, _, hkeeps, hannotated, hannotated.newline_not_mem hn, ?_⟩
  rw [annotate, filterNoise, hkept, hread]

-- the note stands below the line of the place, not at the end
example :
    let l : Log := ⟨[⟨1, .statement, "f()"⟩]⟩
    annotate (filterNoise "# demo\n./demo.go:16:2: undefined: f\n\tmore\n") (Program.ofLog l) l =
      "./demo.go:16:2: undefined: f\n    at: f()\n\tmore" := by
  decide +kernel

end Diagnostics

end GoRepl
