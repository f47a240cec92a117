import GoRepl.Text.Unprintable

/-! # Quoted text in messages

Messages quote characters in `'…'` and strings in `"…"`.  NUL, tab, line feed, carriage return, the
backslash and the enclosing quote have a two-character escape; characters that cannot be seen by
themselves are written as `\u` and their hexadecimal code point in braces.

* `quoteChar`, `quoteString`: the quoted forms.
-/

namespace GoRepl.Text

/-- The digits of `n` in base 16, lower case, without padding. -/
def hex (n : Nat) : List Char := Nat.toDigits 16 n

/-- The escaped form of a character inside the quote `q`. -/
def escape (q c : Char) : List Char :=
  if c = '\x00' then ['\\', '0']
  else if c = '\t' then ['\\', 't']
  else if c = '\r' then ['\\', 'r']
  else if c = '\n' then ['\\', 'n']
  else if c = '\\' || c = q then ['\\', c]
  else if 0x20 ≤ c.toNat ∧ c.toNat < 0x7f then [c]
  else if isHidden c then
    ['\\', 'u', '\x7b'] ++ hex c.toNat ++ ['\x7d']
  else [c]

/-- A character in single quotes. -/
def quoteChar (c : Char) : String :=
  String.ofList ('\'' :: escape '\'' c ++ ['\''])

/-- A string in double quotes. -/
def quoteString (s : String) : String :=
  String.ofList ('"' :: s.toList.flatMap (escape '"') ++ ['"'])

end GoRepl.Text
