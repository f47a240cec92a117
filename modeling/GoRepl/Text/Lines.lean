/-! # Lines of a text

A line ends at a line feed; a carriage return just before the line feed belongs to the line end.
The end of the text ends a last line that is not empty.

* `linesOf`, `lines`: the lines of a text, without their ends.
* `joinLines`, `unlines`: lines with a line feed between them, or behind each.
-/

namespace GoRepl.Text

/-- The lines of a list of characters. -/
def linesOf : List Char → List (List Char)
  | [] => []
  | '\n' :: r => [] :: linesOf r
  | '\r' :: '\n' :: r => [] :: linesOf r
  | c :: r =>
    match linesOf r with
    | [] => [[c]]
    | l :: ls => (c :: l) :: ls

/-- The lines of a text. -/
def lines (s : String) : List String := (linesOf s.toList).map String.ofList

/-- Lines with a line feed between each two. -/
def joinLines (ls : List String) : String := "\n".intercalate ls

/-- Lines with a line feed behind each. -/
def unlines (ls : List String) : String := String.join (ls.map (· ++ "\n"))

end GoRepl.Text
