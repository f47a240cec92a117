import GoRepl.Log.Basic
import GoRepl.Text.Lines

/-! # The program of a log

The program imports `fmt` and what the log imports, defines two helper functions, and runs all other
entries in the order of the log.  Prints are left out but for one: the newest print of the log, if
it belongs to the latest submission, comes at the very end.

* `Part`: a fixed line of the program, or the lines of an entry.
* `Layout.newestPrint?`: the print of the highest number, the last one of these.
* `Layout.parts`: the parts of the program of a log, in order.
* `Program`, `Program.ofLog`: the text and the place of every entry in it.
* `Program.entryAt?`, `Program.lineOf?`: from lines to entries and back.
-/

namespace GoRepl

/-- A part of a program. -/
inductive Part where
  /-- A line that every program has. -/
  | fixed (line : String)
  /-- The lines of the entry with this index in the log. -/
  | entry (index : Nat) (lines : List String)
  deriving Repr, DecidableEq

/-- The lines of a part. -/
def Part.lines : Part → List String
  | fixed line => [line]
  | entry _ lines => lines

namespace Layout

/-- The lines of a text behind an indent; a text without lines takes one. -/
def indented (indent text : String) : List String :=
  match Text.lines text with
  | [] => [indent]
  | ls => ls.map (indent ++ ·)

def header : List String := ["package main", "", "import \"fmt\""]

/-- The helper functions and the start of the main function. -/
def helpers : List String :=
  ["",
   "func " ++ useHelper ++ "(values ...interface\x7b\x7d) \x7b\x7d",
   "",
   "func " ++ firstHelper ++ "(values ...interface\x7b\x7d) interface\x7b\x7d \x7b",
   "\tif len(values) == 0 \x7b",
   "\t\treturn nil",
   "\t\x7d",
   "\treturn values[0]",
   "\x7d",
   "",
   "func main() \x7b",
   "\tfmt.Print(\"\")"]

def footer : List String := ["\x7d"]

/-- The entry with index `i` behind an indent. -/
def part (indent : String) (e : Entry × Nat) : Part := .entry e.2 (indented indent e.1.text)

/-- The newer one of two entries, of which the second stands further behind in the log. -/
def newer (best : Option (Entry × Nat)) (e : Entry × Nat) : Option (Entry × Nat) :=
  if best.any (e.1.sequence < ·.1.sequence) then best else some e

/-- The newest print of the log: of those with the highest number the last one. -/
def newestPrint? (l : Log) : Option (Entry × Nat) :=
  (l.entries.zipIdx.filter (·.1.isPrint)).foldl newer none

/-- The newest print of the log, if it belongs to the latest submission. -/
def echo? (l : Log) : Option (Entry × Nat) :=
  match newestPrint? l with
  | some e => if l.lastSequence? = some e.1.sequence then some e else none
  | none => none

/-- The parts of the program of a log, in order. -/
def parts (l : Log) : List Part :=
  let entries := l.entries.zipIdx
  header.map .fixed ++
    (entries.filter (·.1.isImport)).map (part "") ++
    helpers.map .fixed ++
    (entries.filter fun e => !e.1.isImport && !e.1.isPrint).map (part "\t") ++
    ((echo? l).toList.map (part "\t")) ++
    footer.map .fixed

end Layout

/-- The lines that an entry takes in a program, counted from 1, both ends included. -/
structure Placement where
  entry : Nat
  first : Nat
  last : Nat
  deriving Repr, DecidableEq, Inhabited

namespace Placement

/-- Whether a line is one of the entry's. -/
def covers (p : Placement) (line : Nat) : Bool := p.first ≤ line && line ≤ p.last

/-- The placements of the entries among parts that start behind `above` lines. -/
def ofParts (above : Nat) : List Part → List Placement
  | [] => []
  | .fixed _ :: ps => ofParts (above + 1) ps
  | .entry i ls :: ps =>
    ⟨i, above + 1, above + ls.length⟩ :: ofParts (above + ls.length) ps

end Placement

/-- The text of a program and the places of the log's entries in it. -/
structure Program where
  text : String
  placements : List Placement
  deriving Repr, DecidableEq, Inhabited

namespace Program

/-- The program that consists of the given parts. -/
def ofParts (ps : List Part) : Program where
  text := Text.unlines (ps.flatMap Part.lines)
  placements := Placement.ofParts 0 ps

/-- The program of a log. -/
def ofLog (l : Log) : Program := ofParts (Layout.parts l)

/-- The index of the entry that a line belongs to. -/
def entryAt? (p : Program) (line : Nat) : Option Nat :=
  (p.placements.find? (·.covers line)).map (·.entry)

/-- The first line of the entry with the given index. -/
def lineOf? (p : Program) (index : Nat) : Option Nat :=
  (p.placements.find? (·.entry == index)).map (·.first)

end Program

end GoRepl
