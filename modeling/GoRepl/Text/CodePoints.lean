/-! # Sets of code points

A set of code points is kept as the sorted list of its boundaries: the first boundary opens a run of
members, the second closes it, and so on.  A code point is a member exactly when an odd number of
boundaries lie at or below it.

* `CodePointSet.contains`: membership of a character.
-/

namespace GoRepl.Text

/-- A set of code points, given by the code points at which membership changes, in order. -/
structure CodePointSet where
  /-- Where runs of members open (first, third, …) and close (second, fourth, …). -/
  bounds : List Nat

namespace CodePointSet

/-- Membership: the number of boundaries at or below `c` is odd. -/
def contains (s : CodePointSet) (c : Char) : Bool :=
  (s.bounds.takeWhile (· ≤ c.toNat)).length % 2 == 1

end CodePointSet

end GoRepl.Text
