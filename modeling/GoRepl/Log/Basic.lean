import GoRepl.Log.Entry

/-! # The session log

Entries in the order of their submissions.  The log grows at its end and is rolled back from its
end; the numbers of the submissions never decrease along it.

* `Log.append?`: the log with one more entry and its companion, unless its number is too low.
* `Log.rollback`, `Log.removed`: the log without the submissions from a given number on, and how
  many entries that takes off.
* `Log.declaredNames`: the declared names, first declaration first.
* `Log.listing`: the entries that the user wrote, imports first.
-/

namespace GoRepl

/-- Entries in the order of their submissions. -/
structure Log where
  entries : List Entry := []
  deriving Repr, DecidableEq, Inhabited

namespace Log

/-- The number of the latest submission. -/
def lastSequence? (l : Log) : Option Nat := l.entries.getLast?.map (·.sequence)

/-- Whether an entry may follow: its number is not below the latest one. -/
def accepts (l : Log) (e : Entry) : Bool :=
  match l.lastSequence? with
  | some n => n ≤ e.sequence
  | none => true

/-- The log with one more entry and its companion; nothing if its number is too low. -/
def append? (l : Log) (e : Entry) : Option Log :=
  if l.accepts e then some ⟨l.entries ++ e.withCompanion⟩ else none

/-- The log with one more entry and its companion, or unchanged if its number is too low. -/
def append (l : Log) (e : Entry) : Log := (l.append? e).getD l

/-- The log up to the last entry of a submission below `watermark`. -/
def rollback (l : Log) (watermark : Nat) : Log :=
  ⟨(l.entries.reverse.dropWhile (fun e => watermark ≤ e.sequence)).reverse⟩

/-- How many entries rolling back to `watermark` takes off. -/
def removed (l : Log) (watermark : Nat) : Nat :=
  l.entries.length - (l.rollback watermark).entries.length

/-- The names of a list without repetitions, in the order of their first occurrences. -/
def distinct (names : List String) : List String :=
  names.foldl (fun seen n => if n ∈ seen then seen else seen ++ [n]) []

/-- The declared names in the order of their first declarations. -/
def declaredNames (l : Log) : List String := distinct (l.entries.flatMap (·.declared))

/-- Whether some entry declares `name`. -/
def isDeclared (l : Log) (name : String) : Bool := l.entries.any (name ∈ ·.declared)

/-- The entries that the user wrote. -/
def visible (l : Log) : List Entry := l.entries.filter (·.visible)

/-- The entries that the user wrote, imports first. -/
def listing (l : Log) : List Entry :=
  l.visible.filter (·.isImport) ++ l.visible.filter (!·.isImport)

def isEmpty (l : Log) : Bool := l.entries.isEmpty

end Log

end GoRepl
