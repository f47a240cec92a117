/-! # Blank characters

* `isBlank`: the characters with the Unicode property `White_Space`.
* `trimStart`, `trimEnd`, `trim`: a text without the blank characters at its ends.
* `isBlankText`: a text of blank characters only.
-/

namespace GoRepl.Text

/-- The characters with the property `White_Space`. -/
def isBlank (c : Char) : Bool :=
  let n := c.toNat
  (0x9 ≤ n && n ≤ 0xd) || n == 0x20 || n == 0x85 || n == 0xa0 || n == 0x1680 ||
    (0x2000 ≤ n && n ≤ 0x200a) || n == 0x2028 || n == 0x2029 || n == 0x202f || n == 0x205f ||
    n == 0x3000

/-- The text without the blank characters at its start. -/
def trimStart (cs : List Char) : List Char := cs.dropWhile isBlank

/-- The text without the blank characters at its end. -/
def trimEnd (cs : List Char) : List Char := (cs.reverse.dropWhile isBlank).reverse

/-- The text without the blank characters at its ends. -/
def trim (s : String) : String := String.ofList (trimEnd (trimStart s.toList))

/-- A text of blank characters only. -/
def isBlankText (s : String) : Bool := s.toList.all isBlank

end GoRepl.Text
