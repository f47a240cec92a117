import GoRepl.Console.Command
import GoRepl.Text.Letters
import GoRepl.Token.Keyword

/-! # Completing the word before the cursor

* `Completion.cutAt?`: a text cut at a byte offset.
* `Completion.word`: the word that ends at the cursor.
* `Completion.at?`: where the word starts and what it may be completed to.
-/

namespace GoRepl.Completion

/-- A text cut into the first `n` bytes and the rest; nothing if that would cut a character. -/
def cutAt? : Nat → List Char → Option (List Char × List Char)
  | 0, cs => some ([], cs)
  | _ + 1, [] => none
  | n + 1, c :: r =>
    if c.utf8Size ≤ n + 1 then (cutAt? (n + 1 - c.utf8Size) r).map fun (a, b) => (c :: a, b)
    else none

/-- Characters of a completed word: those of names, and the point and question mark of
commands. -/
def isWordChar (c : Char) : Bool :=
  Text.isLetterOrNumeral c || c == '_' || c == '.' || c == '?'

/-- The longest run of word characters at the end of a text. -/
def word (before : List Char) : List Char := (before.reverse.takeWhile isWordChar).reverse

/-- A completion: the byte offset where the word starts, and its replacements. -/
structure Offer where
  start : Nat
  candidates : List String
  deriving Repr, DecidableEq, Inhabited

/-- The bytes of a text. -/
def size (cs : List Char) : Nat := cs.foldr (fun c n => c.utf8Size + n) 0

/-- What `w` may be completed to.  A word with a point in front that is all of the line is a
command; otherwise it is a declared name or a keyword. -/
def candidates (names : List String) (line w : List Char) : List String :=
  let pool :=
    if line.dropWhile Text.isBlank == w && w.head? == some '.' then Command.controls
    else names ++ Keyword.all.map Keyword.spelling
  pool.filter fun s => w.isPrefixOf s.toList

/-- The completion of the word before byte `pos` of a line. -/
def at? (names : List String) (line : String) (pos : Nat) : Option Offer :=
  (cutAt? pos line.toList).map fun (before, _) =>
    let w := word before
    ⟨pos - size w, if w.isEmpty then [] else candidates names line.toList w⟩

end GoRepl.Completion
