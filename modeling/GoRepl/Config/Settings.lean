import GoRepl.Config.ShellWords
import GoRepl.Config.Toml.Document
import GoRepl.Files.Tree

/-! # Settings

Settings come from a file `goloop.toml`.  Everything in it is optional.

* `Settings`: the settings and their defaults.
* `Settings.ofTable`: the settings in a table.
* `Settings.find?`: the file that settings are read from.
* `Settings.load`, `Settings.loadFrom`: reading them.
* `Settings.buildFlags`, `Settings.compileArguments`: the command line of the compiler.
-/

namespace GoRepl

open Toml

/-- Why settings cannot be used. -/
inductive ConfigError where
  | unreadable (path : String) (e : FileError)
  /-- The file is no TOML, or a value in it is of the wrong type. -/
  | invalid (path : String)
  /-- A quote in the build flags is not closed. -/
  | buildFlags
  deriving Repr, DecidableEq, Inhabited

/-- The wording of the error.  What is wrong inside an invalid file is left open. -/
def ConfigError.message : ConfigError → String
  | unreadable path e => "cannot read '" ++ path ++ "': " ++ e.message
  | invalid path => "invalid toml in '" ++ path ++ "':"
  | buildFlags => "invalid build_flags: missing closing quote"

/-- The settings. -/
structure Settings where
  /-- The command that compiles. -/
  go : String := "go"
  /-- More arguments for it, as one text. -/
  buildFlags : String := ""
  /-- The name of the program, which its files are named for. -/
  image : String := "goloop_image"
  stagingDir : String := "."
  keepSource : Bool := false
  /-- Whether the line history is kept. -/
  history : Bool := true
  deriving Repr, DecidableEq, Inhabited

namespace Settings

/-! ## Reading tables -/

/-- A text under a key that may be missing. -/
def stringOr (default : String) : Option Value → Option String
  | none => some default
  | some (.string s) => some s
  | some _ => none

/-- A truth value under a key that may be missing. -/
def boolOr (default : Bool) : Option Value → Option Bool
  | none => some default
  | some (.boolean b) => some b
  | some _ => none

/-- The keys and values of a section.  A section may be a table, or an array of the values in the
order of its `keys`; a date is a section without values. -/
def section? (keys : List String) : Option Value → Option Toml.Table
  | none | some .datetime => some []
  | some (.table _ entries) => some entries
  | some (.array items) => some (keys.zip items)
  | some (.tables ts) => some (keys.zip (ts.map (Value.table .explicit)))
  | some _ => none

/-- The settings in a table; nothing if a value is of the wrong type.  Other keys do not count. -/
def ofTable (t : Toml.Table) : Option Settings := do
  let toolchain ← section? ["go", "build_flags"] (t.lookup "toolchain")
  let session ← section? ["image", "staging_dir", "keep_source", "history"] (t.lookup "session")
  let d : Settings := {}
  return {
    go := ← stringOr d.go (toolchain.lookup "go")
    buildFlags := ← stringOr d.buildFlags (toolchain.lookup "build_flags")
    image := ← stringOr d.image (session.lookup "image")
    stagingDir := ← stringOr d.stagingDir (session.lookup "staging_dir")
    keepSource := ← boolOr d.keepSource (session.lookup "keep_source")
    history := ← boolOr d.history (session.lookup "history") }

/-! ## Reading files -/

/-- The settings in a file. -/
def loadFrom (t : Tree) (cwd : Location) (path : String) : Except ConfigError Settings :=
  match t.readText cwd path with
  | .error e => .error (.unreadable path e)
  | .ok text =>
    match (parse text).bind ofTable with
    | some s => .ok s
    | none => .error (.invalid path)

/-- The name of the file that settings are read from. -/
def fileName : String := "goloop.toml"

/-- The paths where settings may be: in the working directory, in those above it, and below the
home directory. -/
def candidates (cwd : Location) (home : Option String) : List String :=
  ((List.range (cwd.length + 1)).reverse.map fun n =>
      Path.join (Tree.absolute (cwd.take n)) fileName) ++
    (home.map fun h => Path.join (Path.join (Path.join h ".config") "goloop") fileName).toList

/-- The path of the file that settings are read from, if there is one. -/
def find? (t : Tree) (cwd : Location) (home : Option String) : Option String :=
  (candidates cwd home).find? (t.has cwd)

/-- The settings in the file found, or the defaults. -/
def load (t : Tree) (cwd : Location) (home : Option String) : Except ConfigError Settings :=
  match find? t cwd home with
  | some path => loadFrom t cwd path
  | none => .ok {}

/-! ## The command line of the compiler -/

/-- The build flags as separate arguments. -/
def flags (s : Settings) : Except ConfigError (List String) :=
  match ShellWords.split? s.buildFlags with
  | some ws => .ok ws
  | none => .error .buildFlags

/-- The arguments that make the compiler turn `source` into `artifact`. -/
def compileArguments (flags : List String) (source artifact : String) : List String :=
  ["build", "-o", artifact] ++ flags ++ [source]

end Settings

end GoRepl
