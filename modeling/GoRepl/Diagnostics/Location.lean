import GoRepl.Program.Layout
import GoRepl.Text.Letters

/-! # Which fragment a diagnostic is about

A diagnostic that starts with the place `file.go:line:` is about the fragment that its line of the
program belongs to; the first line of that fragment is added below it.

* `Diagnostics.location?`: the digits of the line number in a diagnostic.
* `Diagnostics.fragment?`: the text the user wrote behind an entry.
* `Diagnostics.annotate`: diagnostics with the fragments they are about.
-/

namespace GoRepl.Diagnostics

/-- The digits between `.go:` and `:` at the front of a text. -/
def locationHere? (cs : List Char) : Option (List Char) :=
  match cs with
  | '.' :: 'g' :: 'o' :: ':' :: r =>
    let digits := r.takeWhile Text.isDecimalDigit
    if !digits.isEmpty && (r.drop digits.length).head? == some ':' then some digits else none
  | _ => none

/-- The digits of the line number in a diagnostic: those of the last place in the text before the
first blank character. -/
def location? : List Char → Option (List Char)
  | [] => none
  | c :: r =>
    match if Text.isBlank c then none else location? r with
    | some digits => some digits
    | none => locationHere? (c :: r)

/-- The least number that does not fit in 64 bits. -/
def lineBound : Nat := 0x10000000000000000

/-- The number that ASCII digits spell, if it fits in 64 bits. -/
def lineNumber? (digits : List Char) : Option Nat :=
  if digits.all Char.isDigit then
    let n := digits.foldl (fun n d => 10 * n + (d.toNat - '0'.toNat)) 0
    if n < lineBound then some n else none
  else none

/-- The entry the user wrote in the submission of the entry with index `i`; that entry itself if
there is none before it. -/
def source? (l : Log) (i : Nat) : Option Entry :=
  (l.entries[i]?).map fun e =>
    if e.visible then e
    else
      ((l.entries.take i).reverse.takeWhile (·.sequence == e.sequence)).find? (·.visible)
        |>.getD e

/-- The first line of the text behind the entry with index `i`. -/
def fragment? (l : Log) (i : Nat) : Option String :=
  (source? l i).bind fun e => (Text.lines e.text).head?

/-- What is added below a diagnostic. -/
def note? (p : Program) (l : Log) (line : String) : Option String := do
  let digits ← location? line.toList
  let n ← lineNumber? digits
  let i ← p.entryAt? n
  let fragment ← fragment? l i
  return "    at: " ++ fragment

/-- Diagnostics with the fragments they are about. -/
def annotate (text : String) (p : Program) (l : Log) : String :=
  Text.joinLines ((Text.lines text).flatMap fun line => line :: (note? p l line).toList)

end GoRepl.Diagnostics
