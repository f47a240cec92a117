import GoRepl.Fragment.Framing
import GoRepl.Proofs.Text.Lines
import GoRepl.Proofs.Token.Boundary
import GoRepl.Proofs.Token.Nesting

/-! # Texts that are collected line by line

A text that was collected from lines went on with each of its line feeds.  This is kept when blank
ends are taken off, and it is what lets the lines of several fragments be grouped again.

* `Framing.needsMore_of_blanks`: blank characters in front do not make a text go on.
* `Framing.Framed`: the text goes on with each of its line feeds; `Framing.framed_iff` decides it.
* `Framing.Collected`, `Framing.Waiting`: texts that were collected, and those not complete yet.
* `Framing.group_collected`, `Framing.group_opens`: what is grouped was collected, and begins with a
  line that is not blank.
* `Framing.Begun`, `Framing.group_begun`: the lines of such a text are grouped into it.
* `Framing.Whole`: such texts that are complete.
-/

namespace GoRepl

open Text

namespace Framing

/-! ## Blank characters in front -/

/-- A text goes on if brackets are open, or the fault in it is an open raw string or comment. -/
theorem needsMore_eq (text : String) : needsMore text =
    match Piece.cut text.toList with
    | .ok ps => decide (0 < ((Piece.kinds false ps).map Kind.depth).sum)
    | .error e => e.2.isOpen := by
  unfold needsMore Token.ofSource
  cases Piece.cut text.toList with
  | error e => rfl
  | ok ps =>
    simp only [depth_eq_sum, ← Token.kinds_place {} false ps, List.map_map]
    rfl

variable {c : Char} {r : List Char}

/-- A space or line end in front changes nothing, -/
theorem needsMore_space (h : c = '\n' ∨ c = ' ' ∨ c = '\t' ∨ c = '\r') :
    needsMore (String.ofList (c :: r)) = needsMore (String.ofList r) := by
  obtain ⟨p, hp, hlen, hkinds⟩ : ∃ p, Piece.first c r = .ok p ∧ p.text.length = 1 ∧
      ∀ ps, Piece.kinds false (p :: ps) = Piece.kinds false ps := by
    rcases h with rfl | h
    · exact ⟨.newline, rfl, rfl, fun _ => rfl⟩
    · refine ⟨.blank c, ?_, rfl, fun _ => rfl⟩
      have hn : c ≠ '\n' := by
        rintro rfl
        revert h
        decide
      rw [Piece.first, if_neg hn, if_pos h]
  rw [needsMore_eq, needsMore_eq, String.toList_ofList, String.toList_ofList, Piece.cut]
  simp only [hp, hlen, Nat.sub_self, List.drop_zero]
  cases Piece.cut r with
  | error e => rfl
  | ok ps => simp only [hkinds]

/-- and any other blank character is a fault. -/
theorem needsMore_blank (h : isBlank c = true) (hc : ¬(c = '\n' ∨ c = ' ' ∨ c = '\t' ∨ c = '\r')) :
    needsMore (String.ofList (c :: r)) = false := by
  have hfirst : Piece.first c r = .error (.unexpectedChar c) :=
    Piece.first_unexpected (Piece.opensToken_blank h) (fun hn => hc (.inl hn))
      fun hs => hc (.inr hs)
  rw [needsMore_eq, String.toList_ofList, Piece.cut]
  simp only [hfirst]
  rfl

/-- A text that goes on does so without blank characters at its front. -/
theorem needsMore_of_blanks {a p : List Char} (ha : ∀ c ∈ a, isBlank c = true)
    (h : needsMore (String.ofList (a ++ p)) = true) : needsMore (String.ofList p) = true := by
  induction a with
  | nil => exact h
  | cons c a ih =>
    obtain ⟨hc, ha⟩ := List.forall_mem_cons.mp ha
    refine ih ha ?_
    by_cases hs : c = '\n' ∨ c = ' ' ∨ c = '\t' ∨ c = '\r'
    · rwa [List.cons_append, needsMore_space hs] at h
    · rw [List.cons_append, needsMore_blank hc hs] at h
      cases h

/-! ## Collecting -/

/-- The text goes on with each of its line feeds. -/
def Framed (text : String) : Prop :=
  ∀ p q, text.toList = p ++ '\n' :: q → needsMore (String.ofList p) = true

theorem framed_iff {text : String} : Framed text ↔ ∀ n < text.toList.length,
    text.toList[n]? = some '\n' → needsMore (String.ofList (text.toList.take n)) = true := by
  constructor
  · intro h n hn hc
    refine h _ (text.toList.drop (n + 1)) ?_
    rw [List.getElem?_eq_getElem hn, Option.some_inj] at hc
    rw [← hc, List.getElem_cons_drop, List.take_append_drop]
  · intro h p q hpq
    have hn : p.length < text.toList.length := by simp [hpq]
    have hmore := h p.length hn (by simp [hpq])
    rwa [hpq, List.take_left] at hmore

instance (text : String) : Decidable (Framed text) := decidable_of_iff _ framed_iff.symm

/-- The text went on with each of its line feeds, and it has no carriage return. -/
structure Collected (text : String) : Prop where
  framed : Framed text
  plain : '\r' ∉ text.toList

/-- Nothing, or a collected text that is not complete. -/
def Waiting (text : String) : Prop := text = "" ∨ Collected text ∧ needsMore text = true

/-- A line without its end. -/
def IsLine (line : String) : Prop := '\n' ∉ line.toList ∧ '\r' ∉ line.toList

variable {text line : String}

theorem Collected.trim (h : Collected text) : Collected (Text.trim text) := by
  obtain ⟨a, b, htext, ha, -⟩ := exists_trim text
  constructor
  · intro p q hpq
    refine needsMore_of_blanks ha (h.framed (a ++ p) (q ++ b) ?_)
    rw [htext, hpq]
    simp
  · exact fun hr => h.plain (mem_of_mem_trim hr)

theorem Waiting.nothing : Waiting "" := .inl rfl

theorem IsLine.collected (h : IsLine line) : Collected line where
  framed p q hpq := absurd (by simp [hpq]) h.1
  plain := h.2

theorem toList_extend (h : text ≠ "") (line : String) :
    (extend text line).toList = text.toList ++ '\n' :: line.toList := by
  rw [extend, if_neg (by simpa using h), String.toList_append, String.toList_append,
    List.append_assoc]
  rfl

theorem ne_empty_of_needsMore (h : needsMore text = true) : text ≠ "" := by
  rintro rfl
  exact absurd h (by decide +kernel)

theorem Waiting.extend (h : Waiting text) (hl : IsLine line) : Collected (extend text line) := by
  obtain rfl | ⟨⟨hframed, hplain⟩, hmore⟩ := h
  · exact hl.collected
  have hlist := toList_extend (ne_empty_of_needsMore hmore) line
  constructor
  · intro p q hpq
    rw [hlist] at hpq
    -- the new line has no line feed: this one is the one before it, or one of `text`
    obtain ⟨m, hp, hm⟩ | ⟨m, ht, hm⟩ := List.append_eq_append_iff.mp hpq
    · cases m with
      | nil =>
        rw [hp, List.append_nil, String.ofList_toList]
        exact hmore
      | cons c m =>
        obtain ⟨rfl, hline⟩ := List.cons_eq_cons.mp hm
        exact absurd (by simp [hline]) hl.1
    · cases m with
      | nil =>
        rw [← List.append_nil p, ← ht, String.ofList_toList]
        exact hmore
      | cons c m =>
        obtain ⟨rfl, -⟩ := List.cons_eq_cons.mp hm
        exact hframed p m ht
  · rw [hlist]
    simp [hplain, hl.2]

/-- What is grouped from lines was collected, and what is left waits. -/
theorem group_collected {ls : List String} (h : Waiting text) (hls : ∀ l ∈ ls, IsLine l) :
    (∀ f ∈ (group text ls).1, Collected f) ∧ Waiting (group text ls).2 := by
  induction ls generalizing text with
  | nil => exact ⟨nofun, h⟩
  | cons l ls ih =>
    obtain ⟨hl, hls⟩ := List.forall_mem_cons.mp hls
    have hcollected := h.extend hl
    rw [group]
    split
    · exact ih .nothing hls
    · dsimp only
      split
      · rename_i hmore
        exact ih (.inr ⟨hcollected, hmore⟩) hls
      · obtain ⟨hrest, hleft⟩ := ih .nothing hls
        exact ⟨List.forall_mem_cons.mpr ⟨hcollected, hrest⟩, hleft⟩

/-- The first line of the text is not blank. -/
def Opens (text : String) : Prop :=
  isBlankText (String.ofList (text.toList.takeWhile (· ≠ '\n'))) = false

theorem Opens.ne_empty (h : Opens text) : text ≠ "" := by
  rintro rfl
  cases h

theorem Opens.extend (h : Opens text) (line : String) : Opens (extend text line) := by
  rwa [Opens, toList_extend h.ne_empty, takeWhile_line]

theorem IsLine.opens (h : IsLine line) (hb : isBlankText line = false) : Opens line := by
  have hline : line.toList.takeWhile (· ≠ '\n') = line.toList := by
    rw [List.takeWhile_eq_self_iff]
    intro c hc
    exact decide_eq_true fun hn => h.1 (hn ▸ hc)
  rwa [Opens, hline, String.ofList_toList]

/-- What is grouped from lines is complete, and begins with a line that is not blank; so does what
is left. -/
theorem group_opens {ls : List String} (h : text = "" ∨ Opens text) (hls : ∀ l ∈ ls, IsLine l) :
    (∀ f ∈ (group text ls).1, Opens f ∧ needsMore f = false) ∧
      ((group text ls).2 = "" ∨ Opens (group text ls).2) := by
  induction ls generalizing text with
  | nil => exact ⟨nofun, h⟩
  | cons l ls ih =>
    obtain ⟨hl, hls⟩ := List.forall_mem_cons.mp hls
    rw [group]
    split
    · exact ih (.inl rfl) hls
    · rename_i hskip
      have hopens : Opens (Framing.extend text l) := by
        obtain rfl | h := h
        · exact hl.opens (by simpa using hskip)
        · exact h.extend l
      dsimp only
      split
      · exact ih (.inr hopens) hls
      · rename_i hmore
        obtain ⟨hrest, hleft⟩ := ih (.inl rfl) hls
        exact ⟨List.forall_mem_cons.mpr ⟨⟨hopens, Bool.eq_false_iff.mpr hmore⟩, hrest⟩, hleft⟩

/-! ## Grouping again -/

/-- A text that goes on with each of its line feeds, and whose first line is not blank. -/
structure Begun (text : String) : Prop where
  framed : Framed text
  opens : Opens text

/-- A complete fragment: it goes on with each of its line feeds and not with its end, and its first
line is not blank. -/
structure Whole (text : String) : Prop where
  framed : Framed text
  complete : needsMore text = false
  opens : isBlankText (String.ofList (text.toList.takeWhile (· ≠ '\n'))) = false

variable {pending : String} {rest : List String}

theorem group_line (h : (pending.isEmpty && isBlankText line) = false) :
    group pending (line :: rest) =
      if needsMore (extend pending line) then group (extend pending line) rest
      else (extend pending line :: (group "" rest).1, (group "" rest).2) := by
  rw [group, h]
  rfl

/-- Lines that continue a text are grouped with it, whatever follows. -/
theorem group_continued {ls : List (List Char)} (hne : pending ≠ "")
    (htext : text.toList = ['\n'].intercalate (pending.toList :: ls)) (hframed : Framed text) :
    (if needsMore pending then group pending (ls.map String.ofList ++ rest)
      else (pending :: (group "" (ls.map String.ofList ++ rest)).1,
        (group "" (ls.map String.ofList ++ rest)).2)) =
      if needsMore text then group text rest
      else (text :: (group "" rest).1, (group "" rest).2) := by
  -- on the lines to come; while there are any, the text so far ends at a line feed of `text`
  induction ls generalizing pending with
  | nil =>
    rw [List.intercalate_singleton, String.toList_inj] at htext
    rw [htext]
    rfl
  | cons l ls ih =>
    have hext := toList_extend hne (String.ofList l)
    rw [String.toList_ofList] at hext
    have hne' : extend pending (String.ofList l) ≠ "" := by
      rw [Ne, ← String.toList_eq_nil_iff, hext]
      simp
    have hskip : (pending.isEmpty && isBlankText (String.ofList l)) = false := by
      rw [String.isEmpty_eq_false_iff.mpr hne, Bool.false_and]
    rw [List.intercalate_cons_cons, List.append_assoc, List.singleton_append] at htext
    have hmore : needsMore pending = true := by
      have h := hframed _ _ htext
      rwa [String.ofList_toList] at h
    rw [if_pos hmore, List.map_cons, List.cons_append, group_line hskip]
    refine ih hne' ?_
    rw [htext, hext]
    cases ls <;> simp [List.intercalate_cons_cons]

/-- The lines of a text that was begun are grouped into it, whatever follows. -/
theorem group_begun (h : Begun text) :
    group "" ((text.toList.splitOn '\n').map String.ofList ++ rest) =
      if needsMore text then group text rest
      else (text :: (group "" rest).1, (group "" rest).2) := by
  obtain ⟨ls, hls⟩ := splitOn_eq_cons text.toList
  have htext : ['\n'].intercalate (text.toList.splitOn '\n') = text.toList :=
    List.intercalate_splitOn '\n'
  have hopens : isBlankText _ = false := h.opens
  rw [hls] at htext ⊢
  generalize text.toList.takeWhile (· ≠ '\n') = l at htext hopens ⊢
  have hskip : ("".isEmpty && isBlankText (String.ofList l)) = false := by
    rw [hopens, Bool.and_false]
  have hne : String.ofList l ≠ "" := by
    rintro he
    rw [he] at hopens
    cases hopens
  have hext : extend "" (String.ofList l) = String.ofList l := rfl
  rw [List.map_cons, List.cons_append, group_line hskip, hext]
  refine group_continued hne ?_ h.framed
  rw [String.toList_ofList, htext]

end Framing

end GoRepl
