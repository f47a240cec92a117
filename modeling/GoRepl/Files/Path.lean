/-! # File paths as text

* `Path.isAbsolute`: whether a path starts at the root.
* `Path.join`: a path below a directory.
* `Path.parent?`: the path without its last part.
-/

namespace GoRepl.Path

/-- Whether a path starts at the root. -/
def isAbsolute (path : String) : Bool := path.toList.head? == some '/'

/-- The path `rest` seen from the directory `dir`.  An absolute path stands for itself. -/
def join (dir rest : String) : String :=
  if isAbsolute rest then rest
  else if dir.isEmpty || dir.toList.getLast? == some '/' then dir ++ rest
  else dir ++ "/" ++ rest

/-- The parts between slashes. -/
def parts (path : String) : List String := (path.toList.splitOn '/').map String.ofList

/-- A part that names nothing: it is empty, or a point that does not open the path. -/
def isVoid (part : String × Nat) : Bool := part.1 == "" || (part.1 == "." && part.2 != 0)

/-- Parts without the void ones at their end. -/
def dropVoid (ps : List (String × Nat)) : List (String × Nat) :=
  (ps.reverse.dropWhile isVoid).reverse

/-- The path without its last part; nothing for the root and the empty path. -/
def parent? (path : String) : Option String :=
  match dropVoid (parts path).zipIdx with
  | [] => none
  | ps =>
    let above := "/".intercalate ((dropVoid ps.dropLast).map (·.1))
    some (if isAbsolute path then (if above.isEmpty then "/" else above) else above)

end GoRepl.Path
