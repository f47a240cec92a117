import GoRepl.Text.Blank
import Mathlib.Data.List.DropRight

/-! # Texts without blank ends

* `Text.blanks`: all blank characters.
* `Text.exists_trim`: what is taken off the ends of a text is blank.
* `Text.head_of_trimmed`, `Text.last_of_trimmed`: what is left begins and ends with something else.
* `Text.isBlank_head_trim`: a trimmed text does not begin with a blank character.
* `Text.trim_trim`: trimming twice is trimming once.
-/

namespace GoRepl.Text

/-- All blank characters. -/
def blanks : List Char :=
  (List.range' 0x9 5 ++ [0x20, 0x85, 0xa0, 0x1680] ++ List.range' 0x2000 11 ++
    [0x2028, 0x2029, 0x202f, 0x205f, 0x3000]).map Char.ofNat

theorem mem_blanks {c : Char} (h : isBlank c = true) : c ∈ blanks := by
  rw [← Char.ofNat_toNat c]
  refine List.mem_map_of_mem ?_
  simp only [isBlank, Bool.or_eq_true, Bool.and_eq_true, decide_eq_true_eq, beq_iff_eq] at h
  simp only [List.mem_append, List.mem_range'_1, List.mem_cons, List.not_mem_nil, or_false]
  omega

theorem toList_trim (s : String) :
    (trim s).toList = (s.toList.dropWhile isBlank).rdropWhile isBlank := String.toList_ofList

/-- A text is its trimmed form between blank characters. -/
theorem exists_trim (s : String) : ∃ a b, s.toList = a ++ (trim s).toList ++ b ∧
    (∀ c ∈ a, isBlank c = true) ∧ ∀ c ∈ b, isBlank c = true := by
  refine ⟨s.toList.takeWhile isBlank, (s.toList.dropWhile isBlank).rtakeWhile isBlank, ?_,
    fun c hc => List.mem_takeWhile_imp hc, fun c hc => List.mem_rtakeWhile_imp hc⟩
  rw [List.append_assoc, toList_trim, List.rdropWhile_append_rtakeWhile,
    List.takeWhile_append_dropWhile]

theorem mem_of_mem_trim {s : String} {c : Char} (h : c ∈ (trim s).toList) : c ∈ s.toList := by
  obtain ⟨a, b, hs, -⟩ := exists_trim s
  rw [hs]
  exact List.mem_append_left b (List.mem_append_right a h)

/-- What is left of a list without both ends begins with something else than they hold, -/
theorem head_of_trimmed {α : Type} {p : α → Bool} {ls : List α} {a : α}
    (h : ((ls.dropWhile p).rdropWhile p).head? = some a) : p a = false := by
  obtain ⟨r, hr⟩ := List.head?_eq_some_iff.mp h
  obtain ⟨b, hb⟩ := List.rdropWhile_prefix p (l := ls.dropWhile p)
  rw [hr] at hb
  have hne : ls.dropWhile p ≠ [] := by
    rw [← hb]
    exact List.cons_ne_nil _ _
  have hhead := List.head_dropWhile_not p hne
  simpa only [← hb, List.cons_append, List.head_cons] using hhead

/-- and ends with something else. -/
theorem last_of_trimmed {α : Type} {p : α → Bool} {ls : List α} {a : α}
    (h : (ls.rdropWhile p).getLast? = some a) : p a = false := by
  obtain ⟨r, hr⟩ := List.getLast?_eq_some_iff.mp h
  have hne : ls.rdropWhile p ≠ [] := by
    rw [hr]
    exact List.concat_ne_nil _ _
  have hlast := List.rdropWhile_last_not p ls hne
  simpa [hr] using hlast

theorem isBlank_head_trim {s : String} {c : Char} {r : List Char} (h : (trim s).toList = c :: r) :
    isBlank c = false := by
  rw [toList_trim] at h
  exact head_of_trimmed (by rw [h, List.head?_cons])

theorem trim_trim (s : String) : trim (trim s) = trim s := by
  have hfront : (trim s).toList.dropWhile isBlank = (trim s).toList := by
    cases h : (trim s).toList with
    | nil => rfl
    | cons c r => rw [List.dropWhile_cons_of_neg (by simp [isBlank_head_trim h])]
  rw [← String.toList_inj, toList_trim (trim s), hfront, toList_trim, List.rdropWhile_idempotent]

/-- A trimmed text that is not empty has more than blank characters in its first line. -/
theorem isBlankText_firstLine {s : String} (ht : trim s = s) (hne : s.isEmpty = false) :
    isBlankText (String.ofList (s.toList.takeWhile (· ≠ '\n'))) = false := by
  cases h : s.toList with
  | nil =>
    rw [String.toList_eq_nil_iff.mp h] at hne
    cases hne
  | cons c r =>
    have hc : isBlank c = false := isBlank_head_trim (s := s) (ht ▸ h)
    have hn : c ≠ '\n' := by
      rintro rfl
      cases hc
    rw [isBlankText, String.toList_ofList, List.takeWhile_cons_of_pos (by simpa using hn),
      List.all_cons, hc, Bool.false_and]

end GoRepl.Text
