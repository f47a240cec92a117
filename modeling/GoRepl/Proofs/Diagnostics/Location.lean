import GoRepl.Diagnostics.Location
import GoRepl.Proofs.Program.Placement
import Mathlib.Data.List.TakeWhile
import Mathlib.Data.Nat.Digits.Defs

/-! # The line number in a diagnostic

A diagnostic may start with a place: a file name, its line number and perhaps a column.  The file
name is as long as possible, and so is the number behind it.

* `PlaceAt`, `Captures`: a place at the front of a text, and the digits of the longest one.
* `location?_eq_some`: the digits that are found are those.
* `lineNumber?_eq_some`: the number that ASCII digits spell, if it fits in 64 bits.
* `Names`: a diagnostic that names a line of an entry.
-/

namespace GoRepl.Diagnostics

/-- A text starts with `file`, `.go:`, `digits`, `column` and a colon.  The file name has no blank
characters; the column is a colon with digits behind it, or nothing. -/
structure PlaceAt (cs file digits column : List Char) : Prop where
  front : file ++ ".go:".toList ++ digits ++ column ++ [':'] <+: cs
  solid : ∀ c ∈ file, Text.isBlank c = false
  number : digits ≠ [] ∧ ∀ d ∈ digits, Text.isDecimalDigit d = true
  column : column = [] ∨ ∃ ds, column = ':' :: ds ∧ ds ≠ [] ∧
    ∀ d ∈ ds, Text.isDecimalDigit d = true

/-- Among the places at the front of the text, those with the longest file name have these digits at
most. -/
def Captures (cs digits : List Char) : Prop :=
  ∃ file column, PlaceAt cs file digits column ∧
    ∀ file' digits' column', PlaceAt cs file' digits' column' →
      file'.length ≤ file.length ∧
        (file'.length = file.length → digits'.length ≤ digits.length)

variable {cs file digits column : List Char} {c : Char}

namespace PlaceAt

theorem cons_iff {r : List Char} {c' : Char} : PlaceAt (c :: r) (c' :: file) digits column ↔
    c' = c ∧ Text.isBlank c = false ∧ PlaceAt r file digits column := by
  constructor
  · intro h
    obtain ⟨hc, hfront⟩ := List.cons_prefix_cons.mp h.front
    obtain ⟨hblank, hsolid⟩ := List.forall_mem_cons.mp h.solid
    exact ⟨hc, hc ▸ hblank, hfront, hsolid, h.number, h.column⟩
  · rintro ⟨rfl, hblank, h⟩
    refine ⟨?_, List.forall_mem_cons.mpr ⟨hblank, h.solid⟩, h.number, h.column⟩
    exact List.cons_prefix_cons.mpr ⟨rfl, h.front⟩

/-- With or without a column, a colon follows the line number. -/
theorem nil_iff : PlaceAt cs [] digits [] ↔
    (∃ r, cs = '.' :: 'g' :: 'o' :: ':' :: (digits ++ ':' :: r)) ∧
      digits ≠ [] ∧ ∀ d ∈ digits, Text.isDecimalDigit d = true := by
  constructor
  · intro h
    obtain ⟨r, hr⟩ := h.front
    refine ⟨⟨r, ?_⟩, h.number⟩
    rw [← hr]
    simp
  · rintro ⟨⟨r, rfl⟩, hnumber⟩
    exact ⟨⟨r, by simp⟩, nofun, hnumber, .inl rfl⟩

theorem without_column (h : PlaceAt cs file digits column) : PlaceAt cs file digits [] := by
  refine ⟨?_, h.solid, h.number, .inl rfl⟩
  have hcolon : [':'] <+: column ++ [':'] := by
    obtain hnil | ⟨ds, hds, -⟩ := h.column
    · rw [hnil]
      exact List.prefix_rfl
    · rw [hds]
      exact List.cons_prefix_cons.mpr ⟨rfl, List.nil_prefix⟩
  have hfront := h.front
  rw [List.append_assoc _ column] at hfront
  rw [List.append_nil]
  exact ((List.prefix_append_right_inj _).mpr hcolon).trans hfront

end PlaceAt

theorem locationHere?_eq_some :
    locationHere? cs = some digits ↔ PlaceAt cs [] digits [] := by
  rw [PlaceAt.nil_iff]
  constructor
  · intro h
    unfold locationHere? at h
    split at h
    · rename_i r
      dsimp only at h
      split at h
      · rename_i hd
        cases h
        obtain ⟨hne, hcolon⟩ := Bool.and_eq_true_iff.mp hd
        obtain ⟨rest, hrest⟩ := List.head?_eq_some_iff.mp (eq_of_beq hcolon)
        have hr := List.prefix_iff_eq_append.mp (List.takeWhile_prefix Text.isDecimalDigit (l := r))
        rw [hrest] at hr
        refine ⟨⟨rest, ?_⟩, by simpa using hne, fun d hd => List.mem_takeWhile_imp hd⟩
        rw [hr]
      · cases h
    · cases h
  · rintro ⟨⟨r, rfl⟩, hne, hdigits⟩
    have htake : (digits ++ ':' :: r).takeWhile Text.isDecimalDigit = digits := by
      rw [List.takeWhile_append_of_pos hdigits, List.takeWhile_cons_of_neg (by decide),
        List.append_nil]
    unfold locationHere?
    simp [htake, hne]

theorem location?_cons (c : Char) (r : List Char) : location? (c :: r) =
    ((if Text.isBlank c then none else location? r).or (locationHere? (c :: r))) := by
  conv => lhs; unfold location?
  generalize (if Text.isBlank c then none else location? r) = later
  cases later with
  | none => exact Option.none_or.symm
  | some digits => exact Option.some_or.symm

/-- Nothing is found where no place is. -/
theorem not_placeAt (h : location? cs = none) : ¬PlaceAt cs file digits column := by
  intro hplace
  induction cs generalizing file with
  | nil =>
    have hfront := hplace.front
    simp at hfront
  | cons c r ih =>
    rw [location?_cons, Option.or_eq_none_iff] at h
    obtain ⟨hlater, hhere⟩ := h
    cases file with
    | nil =>
      rw [locationHere?_eq_some.mpr hplace.without_column] at hhere
      cases hhere
    | cons c' file =>
      obtain ⟨-, hblank, hrest⟩ := PlaceAt.cons_iff.mp hplace
      simp only [hblank, Bool.false_eq_true, if_false] at hlater
      exact ih hlater hrest

/-- What is found is the longest place. -/
theorem captures_of_location? (h : location? cs = some digits) : Captures cs digits := by
  induction cs with
  | nil => cases h
  | cons c r ih =>
    rw [location?_cons, Option.or_eq_some_iff] at h
    obtain hlater | ⟨hlater, hhere⟩ := h
    · split at hlater
      · cases hlater
      rename_i hblank
      obtain ⟨file, column, hplace, hlongest⟩ := ih hlater
      refine ⟨c :: file, column, PlaceAt.cons_iff.mpr ⟨rfl, by simpa using hblank, hplace⟩, ?_⟩
      intro file' digits' column' hplace'
      cases file' with
      | nil => simp
      | cons c' file' =>
        obtain ⟨-, -, hrest⟩ := PlaceAt.cons_iff.mp hplace'
        have hle := hlongest file' digits' column' hrest
        simpa using hle
    · refine ⟨[], [], locationHere?_eq_some.mp hhere, ?_⟩
      intro file' digits' column' hplace'
      cases file' with
      | nil =>
        have hsame := locationHere?_eq_some.mpr hplace'.without_column
        rw [hhere] at hsame
        cases hsame
        simp
      | cons c' file' =>
        obtain ⟨-, hblank, hrest⟩ := PlaceAt.cons_iff.mp hplace'
        simp only [hblank, Bool.false_eq_true, if_false] at hlater
        exact absurd hrest (not_placeAt hlater)

/-- There are no two longest places. -/
theorem Captures.unique {digits' : List Char} (h : Captures cs digits) (h' : Captures cs digits') :
    digits = digits' := by
  obtain ⟨file, column, hplace, hlongest⟩ := h
  obtain ⟨file', column', hplace', hlongest'⟩ := h'
  obtain ⟨hle, hdigits⟩ := hlongest file' digits' column' hplace'
  obtain ⟨hle', hdigits'⟩ := hlongest' file digits column hplace
  have hfile : file.length = file'.length := Nat.le_antisymm hle' hle
  have hlength : digits.length = digits'.length :=
    Nat.le_antisymm (hdigits' hfile) (hdigits hfile.symm)
  have hfront := hplace.without_column.front
  have hfront' := hplace'.without_column.front
  have hsame := List.prefix_of_prefix_length_le hfront hfront' (by simp [hfile, hlength])
  have heq := hsame.eq_of_length (by simp [hfile, hlength])
  rw [List.append_nil, List.append_nil] at heq
  have htexts := (List.append_inj (List.append_inj_left' heq rfl) (by simp [hfile]))
  exact htexts.2

/-- The digits that are found are those of the longest place. -/
theorem location?_eq_some : location? cs = some digits ↔ Captures cs digits := by
  constructor
  · exact captures_of_location?
  · intro h
    cases hl : location? cs with
    | none =>
      obtain ⟨file, column, hplace, -⟩ := h
      exact absurd hplace (not_placeAt hl)
    | some digits' => rw [(captures_of_location? hl).unique h]

/-! ## Numbers -/

/-- The digits are ASCII, and spell the number `n`, which fits in 64 bits. -/
def Spells (digits : List Char) (n : Nat) : Prop :=
  (∀ d ∈ digits, d.isDigit = true) ∧
    n = Nat.ofDigits 10 (digits.map fun d => d.toNat - '0'.toNat).reverse ∧ n < 2 ^ 64

theorem lineNumber?_eq_some {n : Nat} : lineNumber? digits = some n ↔ Spells digits n := by
  have hvalue : digits.foldl (fun n d => 10 * n + (d.toNat - '0'.toNat)) 0 =
      Nat.ofDigits 10 (digits.map fun d => d.toNat - '0'.toNat).reverse := by
    rw [Nat.ofDigits_eq_foldr, List.foldr_reverse, List.foldl_map]
    simp [Nat.add_comm]
  unfold lineNumber?
  simp only [hvalue, List.all_eq_true]
  constructor
  · intro h
    split at h
    · rename_i hdigits
      split at h
      · rename_i hlt
        cases h
        exact ⟨hdigits, rfl, hlt⟩
      · cases h
    · cases h
  · rintro ⟨hdigits, rfl, hlt⟩
    rw [if_pos hdigits]
    exact if_pos hlt

/-- The diagnostic starts with a place, and the line named there is covered by the placement. -/
def Names (line : String) (q : Placement) : Prop :=
  ∃ digits n, Captures line.toList digits ∧ Spells digits n ∧ q.first ≤ n ∧ n ≤ q.last

end GoRepl.Diagnostics
