import GoRepl.Config.Toml.Number

/-! # TOML documents

A document is a list of lines: keys with values, and headers of tables and arrays of tables.

* `Scan.value`: values.
* `Document`: the tables read so far, and the latest header.
* `Toml.parse`: the table that a text describes.
-/

namespace GoRepl.Toml

namespace Scan

/-! ## Values -/

/-- Takes the values of an array; `n` bounds their number. -/
def arrayItems (item : Scan Value) : Nat → Scan (List Value)
  | 0 => failure
  | n + 1 => do
    gap
    if (← peek) == some ']' then return []
    let v ← item
    gap
    if (← peek) == some ',' then
      char ','
      let vs ← arrayItems item n
      return v :: vs
    else return [v]

/-- Takes the keys and values of a table in braces; `n` bounds their number. -/
def inlineEntries (item : Scan Value) (t : Table) : Nat → Scan Table
  | 0 => failure
  | n + 1 => do
    let (path, k) ← key
    char '='
    spaces
    let v ← item
    spaces
    let t ← StateT.lift (Table.insert? .explicit t path k v)
    if (← peek) == some ',' then
      char ','
      inlineEntries item t n
    else return t

/-- Takes an array. -/
def array (item : Scan Value) : Scan Value := do
  char '['
  let vs ← arrayItems item ((← left) + 1)
  char ']'
  return .array vs

/-- Takes a table in braces. -/
def inlineTable (item : Scan Value) : Scan Value := do
  char '\x7b'
  spaces
  let t ← if (← peek) == some '\x7d' then pure [] else
    inlineEntries item [] ((← left) + 1)
  char '\x7d'
  return .table .inline t

/-- Takes a value that is no array and no table. -/
def scalar : Scan Value := do
  match ← peek with
  | some '"' | some '\'' => return .string (← string)
  | some 't' => do
    text "true".toList
    return .boolean true
  | some 'f' => do
    text "false".toList
    return .boolean false
  | _ => number

/-- Takes a value in which arrays and tables nest at most `depth` times. -/
def value : Nat → Scan Value
  | 0 => scalar
  | depth + 1 => do
    match ← peek with
    | some '[' => array (value depth)
    | some '\x7b' => inlineTable (value depth)
    | _ => scalar

end Scan

/-! ## Lines -/

/-- The tables read so far and the path of the latest header. -/
structure Document where
  root : Table := []
  header : List String := []

namespace Document

open Scan

/-- Takes a key and its value. -/
def keyValue (d : Document) : Scan Document := do
  let (path, k) ← key
  char '='
  spaces
  let v ← value (maxDepth - 1)
  lineEnd
  let root ← StateT.lift (d.root.insertBelow? d.header path k v)
  return { d with root }

/-- Takes the header of a table, or of another table in an array. -/
def table (d : Document) : Scan Document := do
  char '['
  let pushed := (← opt (char '[')).isSome
  let (path, k) ← key
  char ']'
  if pushed then char ']'
  lineEnd
  let root ← StateT.lift (if pushed then d.root.pushNew? path k else d.root.open? path k)
  return ⟨root, path ++ [k]⟩

/-- Takes one line, or a part of it that stands for itself. -/
def line (d : Document) : Scan Document := do
  match ← peek with
  | some '#' => do
    comment
    newlineOrEnd
    return d
  | some '[' => d.table
  | some '\n' | some '\r' => do
    newline
    return d
  | _ => d.keyValue

/-- Takes all lines; `n` bounds their number. -/
def lines (d : Document) : Nat → Scan Document
  | 0 => failure
  | n + 1 => do
    spaces
    if (← peek).isNone then return d
    let d ← d.line
    lines d n

end Document

/-- The table that a text describes.  A byte order mark in front does not count. -/
def parse (source : String) : Option Table :=
  let cs := source.toList
  let cs := if cs.head? == some '\ufeff' then cs.tail else cs
  (Document.lines {} (cs.length + 1) cs).map (·.1.root)

end GoRepl.Toml
