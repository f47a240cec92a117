import GoRepl.Text.Blank
import GoRepl.Text.Lines

/-! # Compiler output without noise

* `Diagnostics.filterNoise`: the lines without package headers and without blank lines at the ends.
-/

namespace GoRepl.Diagnostics

/-- A package header. -/
def isHeader (line : String) : Bool := line.toList.head? == some '#'

/-- Lines without the blank ones at both ends. -/
def trimLines (ls : List String) : List String :=
  ((ls.dropWhile Text.isBlankText).reverse.dropWhile Text.isBlankText).reverse

/-- Compiler output without package headers, and without blank lines at its ends. -/
def filterNoise (text : String) : String :=
  Text.joinLines (trimLines ((Text.lines text).filter (!isHeader ·)))

end GoRepl.Diagnostics
