/-! # TOML tables

* `Value`: what a key may have as its value.
* `Form`: how a table came about, which decides who may still add to it.
* `Table.insert?`: a table with one more value under a dotted key.
* `Table.open?`, `Table.pushNew?`: a table with what the headers `[key]` and `[[key]]` add.
-/

namespace GoRepl.Toml

/-- How a table came about. -/
inductive Form where
  /-- The document, or a table with a header of its own. -/
  | explicit
  /-- A table that only headers below it imply. -/
  | implicit
  /-- A table that dotted keys made. -/
  | dotted
  /-- A table written in braces, which is complete as it stands. -/
  | inline
  deriving Repr, DecidableEq, Inhabited

/-- What a key may have as its value.  Numbers and dates are kept without their values, which
nothing here reads. -/
inductive Value where
  | string (text : String)
  | integer
  | float
  | boolean (value : Bool)
  | datetime
  | array (items : List Value)
  | table (form : Form) (entries : List (String × Value))
  /-- The tables of an array, one for each `[[key]]`. -/
  | tables (items : List (List (String × Value)))

instance : Inhabited Value := ⟨.integer⟩

/-- Keys and their values. -/
abbrev Table := List (String × Value)

namespace Table

/-- The table with another value under a key it has. -/
def set (t : Table) (key : String) (n : Value) : Table :=
  t.map fun e => if e.1 = key then (key, n) else e

/-- Applies `f` to the table that a path leads to, with its form.  Missing tables on the way are
made.  A path of dotted keys leads only through tables made by keys or implied by headers; no path
leads into a value or a table in braces.  In an array of tables it leads into the last one. -/
def update (dotted : Bool) (f : Form → Table → Option Table) (form : Form) :
    List String → Table → Option Table
  | [], t => f form t
  | key :: path, t =>
    match t.lookup key with
    | none => do
      let made := if dotted then Form.dotted else Form.implicit
      let sub ← update dotted f made path []
      return t ++ [(key, .table made sub)]
    | some (.table .inline _) => none
    | some (.table form' sub) =>
      if dotted && form' == .explicit then none
      else do
        let sub ← update dotted f form' path sub
        return t.set key (.table form' sub)
    | some (.tables ts) =>
      match ts.getLast? with
      | none => none
      | some last => do
        let last ← update dotted f .explicit path last
        return t.set key (.tables (ts.dropLast ++ [last]))
    | some _ => none

/-- The table with the value `n` under a dotted key, which must be new.  A dotted key adds only to
tables that dotted keys made. -/
def insert? (form : Form) (t : Table) (path : List String) (key : String) (n : Value) :
    Option Table :=
  update true (fun form t =>
    if (form == .dotted) == path.isEmpty then none
    else if (t.lookup key).isSome then none
    else some (t ++ [(key, n)])) form path t

/-- The document with the table that the header `[key]` opens: a new one, or one that only other
headers implied. -/
def open? (t : Table) (path : List String) (key : String) : Option Table :=
  update false (fun _ t =>
    match t.lookup key with
    | none => some (t ++ [(key, .table .explicit [])])
    | some (.table .implicit sub) => some (t.set key (.table .explicit sub))
    | some _ => none) .explicit path t

/-- The document with one more table in the array that the header `[[key]]` names. -/
def pushNew? (t : Table) (path : List String) (key : String) : Option Table :=
  update false (fun _ t =>
    match t.lookup key with
    | none => some (t ++ [(key, .tables [[]])])
    | some (.tables ts) => some (t.set key (.tables (ts ++ [[]])))
    | some _ => none) .explicit path t

/-- The document with a value under a dotted key below the latest header. -/
def insertBelow? (t : Table) (header path : List String) (key : String) (n : Value) :
    Option Table :=
  update false (fun form t => insert? form t path key n) .explicit header t

end Table

end GoRepl.Toml
