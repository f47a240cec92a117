/-! # Words of a command line

A text is split into words at spaces, tabs and line feeds.  Single quotes keep everything between
them, double quotes everything but some escapes, a backslash keeps the next character, and a `#` at
the start of a word opens a comment to the end of the line.

* `ShellWords.split?`: the words of a text; nothing if a quote is not closed.
-/

namespace GoRepl.ShellWords

/-- Where the splitter stands. -/
inductive Mode where
  /-- Between words. -/
  | between
  | word
  | singleQuoted
  | doubleQuoted
  /-- Behind a backslash outside quotes; `started` if it does not open the word. -/
  | escaped (started : Bool)
  /-- Behind a backslash in double quotes. -/
  | escapedInQuotes
  | comment
  deriving Repr, DecidableEq

/-- A character that ends a word. -/
def isBreak (c : Char) : Bool := c == ' ' || c == '\t' || c == '\n'

/-- The characters that a backslash in double quotes takes the meaning from. -/
def isSpecial (c : Char) : Bool := c ∈ ['$', '\x60', '"', '\\']

/-- The words of a text, where the splitter stands in `mode` behind the characters `cur` of a word,
latest first. -/
def splitFrom (mode : Mode) (cur : List Char) : List Char → Option (List String)
  | [] =>
    match mode with
    | .between | .comment => some []
    | .word => some [finish cur]
    | .escaped _ => some [finish ('\\' :: cur)]
    | .singleQuoted | .doubleQuoted | .escapedInQuotes => none
  | c :: r =>
    match mode with
    | .between =>
      if c == '\'' then splitFrom .singleQuoted [] r
      else if c == '"' then splitFrom .doubleQuoted [] r
      else if c == '\\' then splitFrom (.escaped false) [] r
      else if isBreak c then splitFrom .between [] r
      else if c == '#' then splitFrom .comment [] r
      else splitFrom .word [c] r
    | .word =>
      if c == '\'' then splitFrom .singleQuoted cur r
      else if c == '"' then splitFrom .doubleQuoted cur r
      else if c == '\\' then splitFrom (.escaped true) cur r
      else if isBreak c then (splitFrom .between [] r).map (finish cur :: ·)
      else splitFrom .word (c :: cur) r
    | .escaped started =>
      if c == '\n' then splitFrom (if started then .word else .between) cur r
      else splitFrom .word (c :: cur) r
    | .singleQuoted =>
      if c == '\'' then splitFrom .word cur r else splitFrom .singleQuoted (c :: cur) r
    | .doubleQuoted =>
      if c == '"' then splitFrom .word cur r
      else if c == '\\' then splitFrom .escapedInQuotes cur r
      else splitFrom .doubleQuoted (c :: cur) r
    | .escapedInQuotes =>
      if c == '\n' then splitFrom .doubleQuoted cur r
      else if isSpecial c then splitFrom .doubleQuoted (c :: cur) r
      else splitFrom .doubleQuoted (c :: '\\' :: cur) r
    | .comment => splitFrom (if c == '\n' then .between else .comment) [] r
where
  /-- The word whose characters are `cs`, latest first. -/
  finish (cs : List Char) : String := String.ofList cs.reverse

/-- The words of a text; nothing if a quote is not closed. -/
def split? (text : String) : Option (List String) := splitFrom .between [] text.toList

end GoRepl.ShellWords
