/-! # Terminal colors

* `Color.paint`: a text in a color, or plain where colors are off.
-/

namespace GoRepl

/-- The colors in use. -/
inductive Color where
  | red
  | cyan
  | gray
  deriving Repr, DecidableEq, Inhabited

namespace Color

/-- The number of the color in terminal codes. -/
def code : Color → String
  | red => "31"
  | cyan => "36"
  | gray => "90"

/-- A text in the color, or plain if colors are off. -/
def paint (on : Bool) (c : Color) (text : String) : String :=
  if on then "\x1b[" ++ c.code ++ "m" ++ text ++ "\x1b[0m" else text

end Color

end GoRepl
