import GoRepl.Text.Clusters

/-! # Deletions in a line

A backspace in a line takes back what stands before it: one cluster, which is what the user takes
for one character.

* `Typed`: what is left of the line so far.
* `Typed.feed?`: one more cluster, or one less.
* `withoutDeletions?`: a line with its deletions done; `withoutDeletions?_eq_some`: a line without
  backspaces stays as it is.
-/

namespace GoRepl

/-- What is left of the line so far. -/
structure Typed where
  /-- The characters, the latest first. -/
  chars : List Char := []
  /-- The bytes that each deletion takes back, the next one first. -/
  sizes : List Nat := []
  deriving Repr, DecidableEq, Inhabited

namespace Typed

/-- The size of a cluster in bytes, as it is kept for a deletion: in one byte, so modulo 256. -/
def size (cluster : List Char) : Nat := (cluster.map (·.utf8Size)).foldr (· + ·) 0 % 256

/-- The list without the characters that make up its first `n` bytes.  These must be whole. -/
def dropBytes? : Nat → List Char → Option (List Char)
  | 0, cs => some cs
  | _ + 1, [] => none
  | n + 1, c :: cs => if c.utf8Size ≤ n + 1 then dropBytes? (n + 1 - c.utf8Size) cs else none

/-- The line with one more cluster. -/
def add (t : Typed) (cluster : List Char) : Typed where
  chars := cluster.reverse ++ t.chars
  sizes := size cluster :: t.sizes

/-- The line without what the next deletion takes back.  In an empty line that is nothing. -/
def takeBack? (t : Typed) : Option Typed :=
  match t.sizes with
  | [] => some t
  | n :: sizes => (dropBytes? n t.chars).map fun chars => { chars, sizes }

/-- The line behind one more cluster, which may be a backspace. -/
def feed? (t : Typed) (cluster : List Char) : Option Typed :=
  if cluster = ['\x08'] then t.takeBack? else some (t.add cluster)

theorem foldlM_feed? (cls : List (List Char)) (t : Typed) (h : ['\x08'] ∉ cls) :
    ∃ t', cls.foldlM feed? t = some t' ∧ t'.chars = cls.flatten.reverse ++ t.chars := by
  induction cls generalizing t with
  | nil => exact ⟨t, rfl, rfl⟩
  | cons cl cls ih =>
    have hcl : cl ≠ ['\x08'] := fun e => h (by simp [e])
    obtain ⟨t', ht', hc⟩ := ih (t.add cl) (fun m => h (by simp [m]))
    refine ⟨t', ?_, ?_⟩
    · simp [feed?, hcl, ht']
    · simp [hc, add]

end Typed

/-- A line with its deletions done.  There is none if a deletion ends inside a character. -/
def withoutDeletions? (line : String) : Option String :=
  ((Text.clusters line.toList).foldlM Typed.feed? {}).map fun t => String.ofList t.chars.reverse

/-- A line without backspaces stays as it is. -/
theorem withoutDeletions?_eq_some {line : String} (h : '\x08' ∉ line.toList) :
    withoutDeletions? line = some line := by
  have hcl : ['\x08'] ∉ Text.clusters line.toList := fun m => h (by
    rw [← Text.flatten_clusters line.toList]
    exact List.mem_flatten.2 ⟨_, m, by simp⟩)
  obtain ⟨t, ht, hc⟩ := Typed.foldlM_feed? _ {} hcl
  simp [withoutDeletions?, ht, hc, Text.flatten_clusters]

end GoRepl
