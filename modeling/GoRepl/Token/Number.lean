import GoRepl.Text.Letters
import GoRepl.Token.Basic

/-! # Number literals

A number starts with a digit, or with a point and a digit.  It may have a base mark (`0x`, `0b`,
`0o`), underscores, a point, exponents (`e` in base ten, `p` in base sixteen) and the suffix `i`.

* `Number.mantissa`: the digits, points and exponents.
* `Number.read`: the class and the text of the number that the source begins with, or the text that
  was read when it turned out not to be one.
-/

namespace GoRepl.Number

/-- A hexadecimal digit. -/
def isHexDigit (c : Char) : Bool :=
  c.isDigit || ('a' ≤ c && c ≤ 'f') || ('A' ≤ c && c ≤ 'F')

/-- The characters that may follow `0` to mark a base. -/
def isBaseMark (c : Char) : Bool := c ∈ ['x', 'X', 'b', 'B', 'o', 'O']

/-- Whether a digit comes next. -/
def startsWithDigit : List Char → Bool
  | c :: _ => c.isDigit
  | [] => false

/-- What the base mark of a number permits. -/
structure Base where
  /-- Digits `a` to `f` are allowed, and `p` instead of `e` opens the exponent. -/
  hex : Bool
  /-- A point is allowed. -/
  point : Bool

/-- The character that opens an exponent. -/
def Base.isExponentMark (b : Base) (c : Char) : Bool :=
  if b.hex then c == 'p' || c == 'P' else c == 'e' || c == 'E'

/-- Reads digits, underscores, at most one point before the first exponent, and exponents, from the
front of the source.  Gives the text and whether the number is fractional, or the text up to and
including an exponent mark and sign without a digit behind it. -/
def mantissa (b : Base) (fractional : Bool) : List Char → Except (List Char) (List Char × Bool)
  | [] => .ok ([], fractional)
  | c :: r =>
    if c.isDigit || c == '_' || (b.hex && isHexDigit c) then
      extend [c] (mantissa b fractional r)
    else if c == '.' && !fractional && b.point then
      extend [c] (mantissa b true r)
    else if b.isExponentMark c then
      match r with
      | [] => .error [c]
      | s :: r' =>
        if s == '+' || s == '-' then
          if startsWithDigit r' then extend [c, s] (mantissa b true r') else .error [c, s]
        else if s.isDigit then extend [c] (mantissa b true (s :: r')) else .error [c]
    else .ok ([], fractional)
where
  /-- Puts `cs` before the text of a result. -/
  extend (cs : List Char) : Except (List Char) (List Char × Bool) →
      Except (List Char) (List Char × Bool)
    | .ok (t, f) => .ok (cs ++ t, f)
    | .error t => .error (cs ++ t)

/-- The base mark at the front of a number, and the base it stands for. -/
def baseMark : List Char → List Char × Base
  | '0' :: m :: _ =>
    if isBaseMark m then
      let hex := m == 'x' || m == 'X'
      (['0', m], ⟨hex, hex⟩)
    else ([], ⟨false, true⟩)
  | _ => ([], ⟨false, true⟩)

/-- A character that may stand inside a word. -/
def isWordChar (c : Char) : Bool := Text.isLetterOrNumeral c || c == '_'

/-- The class and the text of the number at the front of the source; when it is malformed, the text
read until that showed. -/
def read (cs : List Char) : Except (List Char) (LiteralClass × List Char) := do
  let (mark, base) := baseMark cs
  let (digits, fractional) ← mantissa.extend mark (mantissa base false (cs.drop mark.length))
  let rest := cs.drop digits.length
  let imaginary := rest.head? == some 'i'
  if digits.getLast? == some '_' || (!mark.isEmpty && digits.length == 2) then
    throw digits
  if mark.isEmpty && !fractional && digits.length > 1 && digits.head? == some '0'
      && digits.any (fun c => c == '8' || c == '9') && !imaginary then
    throw digits
  let text := if imaginary then digits ++ ['i'] else digits
  let tail := (cs.drop text.length).takeWhile isWordChar
  if !tail.isEmpty then
    throw (text ++ tail)
  let cls : LiteralClass :=
    if imaginary then .imaginary else if fractional then .float else .int
  return (cls, text)

end GoRepl.Number
