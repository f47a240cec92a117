import GoRepl.Text.Blank

/-! # Entries of a session log

An entry is a text that goes into the program, with the number of the submission it belongs to.
Some are written by the user; companions and prints are added by the session and are not shown.

* `EntryKind`, `Entry`: entries.
* `Entry.companion?`: the statement that makes declared names count as used.
* `Echo.values`, `Echo.expression`: print statements.
-/

namespace GoRepl

/-- What an entry is. -/
inductive EntryKind where
  /-- An import of packages with these paths. -/
  | imports (paths : List String)
  | statement
  /-- A statement that declares these names. -/
  | declaration (names : List String)
  | assignment
  /-- A statement, added by the session, that uses the names of the declaration before it. -/
  | companion
  /-- A print statement, added by the session. -/
  | print
  deriving Repr, DecidableEq, Inhabited

/-- A text of the program and the submission it belongs to. -/
structure Entry where
  /-- The number of the submission.  It has no bound; in a session it is at most the number of
  fragments that survive. -/
  sequence : Nat
  kind : EntryKind
  text : String
  deriving Repr, DecidableEq, Inhabited

/-- The helper function that takes any values and does nothing with them. -/
def useHelper : String := "goloopUse"

/-- The helper function that gives the first of its arguments. -/
def firstHelper : String := "goloopFirst"

namespace Entry

/-- Whether the user wrote the entry. -/
def visible (e : Entry) : Bool :=
  match e.kind with
  | .companion | .print => false
  | _ => true

def isImport (e : Entry) : Bool :=
  match e.kind with
  | .imports _ => true
  | _ => false

def isPrint (e : Entry) : Bool :=
  match e.kind with
  | .print => true
  | _ => false

/-- The names that the entry declares. -/
def declared (e : Entry) : List String :=
  match e.kind with
  | .declaration names => names
  | _ => []

/-- A call that uses `names`. -/
def useText (names : List String) : String :=
  useHelper ++ "(" ++ ", ".intercalate names ++ ")"

/-- The companion of a declaration of one or more names. -/
def companion? (e : Entry) : Option Entry :=
  if e.declared.isEmpty then none
  else some { sequence := e.sequence, kind := .companion, text := useText e.declared }

/-- The entry and its companion, if it has one. -/
def withCompanion (e : Entry) : List Entry := e :: e.companion?.toList

end Entry

namespace Echo

/-- A statement that prints the values of `names`, separated by commas. -/
def values (names : List String) : String :=
  "fmt.Printf(\"" ++ ",".intercalate (names.map fun _ => "%v") ++ "\", " ++
    ", ".intercalate names ++ ")"

/-- A statement that prints the first value of an expression. -/
def expression (source : String) : String :=
  "fmt.Printf(\"%v\", " ++ firstHelper ++ "(" ++ Text.trim source ++ "))"

end Echo

end GoRepl
