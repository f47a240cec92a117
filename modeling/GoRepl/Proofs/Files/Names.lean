import GoRepl.Files.Tree
import Mathlib.Data.List.Basic

/-! # Names of files in a directory

What a directory holds is found below the location of the directory by its name, however the path
of the directory is written.  So different names lead to different places.

* `Path.IsName`: what can be the name of a file.
* `Path.IsName.append`: a name with an ending is a name.
* `Location.ofPath_join`: where a name in a directory leads.
* `Location.ofPath_join_inj`: different names lead to different locations.
-/

namespace GoRepl

namespace Path

/-- A text that names a file in a directory. -/
structure IsName (name : String) : Prop where
  ne_empty : name ≠ ""
  ne_point : name ≠ "."
  ne_points : name ≠ ".."
  no_slash : '/' ∉ name.toList

theorem IsName.append {name ending : String} (h : IsName name) (hlong : 2 ≤ ending.length)
    (hslash : '/' ∉ ending.toList) : IsName (name ++ ending) := by
  have hname : 0 < name.length := by
    rw [Nat.pos_iff_ne_zero]
    intro hzero
    exact h.ne_empty (String.length_eq_zero_iff.mp hzero)
  have hlength : 3 ≤ (name ++ ending).length := by
    rw [String.length_append]
    omega
  constructor
  · intro he
    rw [he] at hlength
    exact absurd hlength (by decide)
  · intro he
    rw [he] at hlength
    exact absurd hlength (by decide)
  · intro he
    rw [he] at hlength
    exact absurd hlength (by decide)
  · simp [h.no_slash, hslash]

variable {dir name : String}

theorem isAbsolute_of_no_slash (h : '/' ∉ name.toList) : isAbsolute name = false := by
  unfold isAbsolute
  cases hcs : name.toList with
  | nil => rfl
  | cons c cs =>
    have hc : c ≠ '/' := fun he => h (by rw [hcs, he]; exact List.mem_cons_self)
    simpa using hc

theorem parts_of_no_slash (h : '/' ∉ name.toList) : parts name = [name] := by
  rw [parts, List.splitOn_eq_singleton h, List.map_singleton, String.ofList_toList]

theorem parts_append_slash (a b : String) : parts (a ++ "/" ++ b) = parts a ++ parts b := by
  have hcs : (a ++ "/" ++ b).toList = a.toList ++ '/' :: b.toList := by
    simp only [String.toList_append, List.append_assoc]
    rfl
  rw [parts, hcs, List.splitOn_append_cons_self, List.map_append, parts, parts]

/-- A name is seen from a directory behind a slash, unless there is no directory or the slash is
there already. -/
theorem join_cases (h : '/' ∉ name.toList) (dir : String) :
    dir = "" ∧ join dir name = name ∨
      (∃ above, dir = above ++ "/" ∧ join dir name = above ++ "/" ++ name) ∨
      dir ≠ "" ∧ join dir name = dir ++ "/" ++ name := by
  unfold join
  rw [isAbsolute_of_no_slash h, if_neg Bool.false_ne_true]
  by_cases hempty : dir = ""
  · subst hempty
    exact .inl ⟨rfl, by simp⟩
  by_cases hslash : dir.toList.getLast? = some '/'
  · obtain ⟨cs, hcs⟩ := List.getLast?_eq_some_iff.mp hslash
    have hdir : dir = String.ofList cs ++ "/" := by
      rw [← String.ofList_toList (s := dir), hcs, String.ofList_append]
    refine .inr (.inl ⟨String.ofList cs, hdir, ?_⟩)
    simp [hslash, ← hdir]
  · refine .inr (.inr ⟨hempty, ?_⟩)
    simp [hempty, hslash]

theorem isAbsolute_append {a : String} (h : a ≠ "") (b : String) :
    isAbsolute (a ++ b) = isAbsolute a := by
  have hne : a.toList ≠ [] := fun he => h (String.toList_eq_nil_iff.mp he)
  rw [isAbsolute, isAbsolute, String.toList_append, List.head?_append_of_ne_nil _ hne]

theorem isAbsolute_join (h : '/' ∉ name.toList) (dir : String) :
    isAbsolute (join dir name) = isAbsolute dir := by
  rcases join_cases h dir with ⟨rfl, hj⟩ | ⟨above, rfl, hj⟩ | ⟨hne, hj⟩
  · rw [hj, isAbsolute_of_no_slash h]
    rfl
  · rw [hj, isAbsolute_append (by simp)]
  · rw [hj, String.append_assoc, isAbsolute_append hne]

/-- The parts that count are those of the directory, and the name. -/
theorem parts_join (h : IsName name) (dir : String) :
    (parts (join dir name)).filter (· ≠ "") = (parts dir).filter (· ≠ "") ++ [name] := by
  have hname : [name].filter (· ≠ "") = [name] :=
    List.filter_cons_of_pos (by simpa using h.ne_empty)
  rcases join_cases h.no_slash dir with ⟨rfl, hj⟩ | ⟨above, rfl, hj⟩ | ⟨-, hj⟩
  · rw [hj, parts_of_no_slash h.no_slash, hname]
    rfl
  · have hdir : parts (above ++ "/") = parts above ++ [""] := by
      rw [← String.append_empty (s := above ++ "/"), parts_append_slash]
      rfl
    rw [hj, parts_append_slash, parts_of_no_slash h.no_slash, hdir, List.filter_append, hname]
    simp
  · rw [hj, parts_append_slash, parts_of_no_slash h.no_slash, List.filter_append, hname]

end Path

namespace Location

variable {dir name : String}

/-- A name in a directory leads to that name below the directory. -/
theorem ofPath_join (h : Path.IsName name) (cwd : Location) (dir : String) :
    ofPath cwd (Path.join dir name) = ofPath cwd dir ++ [name] := by
  unfold ofPath
  rw [Path.isAbsolute_join h.no_slash, Path.parts_join h, List.foldl_append, List.foldl_cons,
    List.foldl_nil, step, if_neg h.ne_point, if_neg h.ne_points]

theorem ofPath_join_inj {name' : String} (h : Path.IsName name) (h' : Path.IsName name')
    (cwd : Location) (dir : String) :
    ofPath cwd (Path.join dir name) = ofPath cwd (Path.join dir name') ↔ name = name' := by
  rw [ofPath_join h, ofPath_join h', List.append_cancel_left_eq, List.singleton_inj]

end Location

end GoRepl
