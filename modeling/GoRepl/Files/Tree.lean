import GoRepl.Files.Path

/-! # A tree of files

Files and directories below a root, found by the parts of their paths.  The root is always there.

The tree is an ideal one.  Nothing in it is a link, everything may be read, written and removed,
there is room for every content, and only the operations here change it.  So an operation fails for
its path alone: for a name in it, for a node on its way, or for the kind of node that it names.

* `FileError`: why an operation on files fails.
* `Tree`: the nodes below the root, by location.
* `Tree.resolve`: the location that a path names.
* `Tree.read`, `Tree.write`, `Tree.remove`: operations on files.
* `Tree.makeDir`, `Tree.makeDirs`, `Tree.canonical`: operations on directories.
-/

namespace GoRepl

/-- Why an operation on files fails. -/
inductive FileError where
  | notFound
  | alreadyExists
  | notDirectory
  | isDirectory
  | nameTooLong
  | permissionDenied
  | nulInName
  | nulInArgument
  | notUtf8
  deriving Repr, DecidableEq, Inhabited

/-- The wording of the error. -/
def FileError.message : FileError → String
  | notFound => "No such file or directory (os error 2)"
  | alreadyExists => "File exists (os error 17)"
  | notDirectory => "Not a directory (os error 20)"
  | isDirectory => "Is a directory (os error 21)"
  | nameTooLong => "File name too long (os error 36)"
  | permissionDenied => "Permission denied (os error 13)"
  | nulInName => "file name contained an unexpected NUL byte"
  | nulInArgument => "nul byte found in provided data"
  | notUtf8 => "stream did not contain valid UTF-8"

/-- The names from the root down to a node. -/
abbrev Location := List String

/-- The location that a name leads to from another one: `.` stays, `..` goes up. -/
def Location.step (l : Location) (name : String) : Location :=
  if name = "." then l else if name = ".." then l.dropLast else l ++ [name]

/-- The location that a path leads to from `cwd`, whether or not anything is there. -/
def Location.ofPath (cwd : Location) (path : String) : Location :=
  ((Path.parts path).filter (· ≠ "")).foldl Location.step
    (if Path.isAbsolute path then [] else cwd)

/-- A directory, or a file with its content. -/
inductive Node where
  | dir
  | file (content : ByteArray)
  deriving Inhabited

instance : DecidableEq Node
  | .dir, .dir => isTrue rfl
  | .dir, .file _ => isFalse nofun
  | .file _, .dir => isFalse nofun
  | .file a, .file b =>
    match ByteArray.instDecidableEq a b with
    | isTrue h => isTrue (h ▸ rfl)
    | isFalse h => isFalse fun e => h (Node.file.inj e)

/-- The nodes below the root. -/
structure Tree where
  nodes : List (Location × Node) := []
  deriving DecidableEq, Inhabited

/-- What a path names: a location, and whether the path ends with a slash. -/
structure Target where
  location : Location
  asDir : Bool
  deriving Repr, DecidableEq, Inhabited

namespace Tree

/-! ## Nodes by location -/

/-- The node at a location. -/
def find? (t : Tree) (l : Location) : Option Node :=
  if l.isEmpty then some .dir else t.nodes.lookup l

/-- The tree without the node at a location. -/
def erase (t : Tree) (l : Location) : Tree := ⟨t.nodes.filter (·.1 ≠ l)⟩

/-- The tree with the node `n` at a location. -/
def put (t : Tree) (l : Location) (n : Node) : Tree :=
  match t.nodes.lookup l with
  | some _ => ⟨t.nodes.map fun e => if e.1 = l then (l, n) else e⟩
  | none => ⟨t.nodes ++ [(l, n)]⟩

/-- The files of the tree with their contents. -/
def files (t : Tree) : List (Location × ByteArray) :=
  t.nodes.filterMap fun
    | (l, .file c) => some (l, c)
    | (_, .dir) => none

/-- Where another tree differs: the nodes that are new there, and nothing for those that are
gone. -/
def changes (before after : Tree) : List (Location × Option Node) :=
  (after.nodes.filter fun e => before.nodes.lookup e.1 != some e.2).map
      (fun e => (e.1, some e.2)) ++
    (before.nodes.filter fun e => (after.nodes.lookup e.1).isNone).map fun e => (e.1, none)

/-! ## Locations by path -/

/-- The longest name a node can have, in bytes. -/
def maxName : Nat := 255

/-- The longest path, in bytes. -/
def maxPath : Nat := 4095

/-- The location reached from the directory `dir` by names.  All but the last name must lead to
directories. -/
def walk (t : Tree) (dir : Location) : List String → Except FileError Location
  | [] => .ok dir
  | name :: rest =>
    if name.utf8ByteSize > maxName then .error .nameTooLong
    else
      let next := Location.step dir name
      if rest.isEmpty then .ok next
      else
        match t.find? next with
        | some .dir => walk t next rest
        | some (.file _) => .error .notDirectory
        | none => .error .notFound

/-- What a path names, seen from the directory `cwd`.  A slash at its end demands a directory. -/
def resolve (t : Tree) (cwd : Location) (path : String) : Except FileError Target := do
  if path.isEmpty then throw .notFound
  if path.contains '\x00' then throw .nulInName
  if path.utf8ByteSize > maxPath then throw .nameTooLong
  let parts := Path.parts path
  let location ← t.walk (if Path.isAbsolute path then [] else cwd) (parts.filter (· ≠ ""))
  return ⟨location, parts.getLast? == some ""⟩

/-- The node that a path names. -/
def node (t : Tree) (cwd : Location) (path : String) : Except FileError Node := do
  let target ← t.resolve cwd path
  match t.find? target.location with
  | none => throw .notFound
  | some (.file c) => if target.asDir then throw .notDirectory else return .file c
  | some .dir => return .dir

/-- Whether a path names a node. -/
def has (t : Tree) (cwd : Location) (path : String) : Bool := (t.node cwd path).isOk

/-- Whether a path names a directory. -/
def isDir (t : Tree) (cwd : Location) (path : String) : Bool :=
  match t.node cwd path with
  | .ok .dir => true
  | _ => false

/-! ## Files -/

/-- The content of a file. -/
def read (t : Tree) (cwd : Location) (path : String) : Except FileError ByteArray := do
  match ← t.node cwd path with
  | .file c => return c
  | .dir => throw .isDirectory

/-- The content of a file as text. -/
def readText (t : Tree) (cwd : Location) (path : String) : Except FileError String := do
  match String.fromUTF8? (← t.read cwd path) with
  | some s => return s
  | none => throw .notUtf8

/-- The tree with a new content in a file, which is created if it is not there. -/
def write (t : Tree) (cwd : Location) (path : String) (content : ByteArray) :
    Except FileError Tree := do
  let target ← t.resolve cwd path
  if target.asDir then throw .isDirectory
  match t.find? target.location with
  | some .dir => throw .isDirectory
  | _ => return t.put target.location (.file content)

/-- The tree without a file; unchanged if the path names none.  A file that is there can always be
removed. -/
def remove (t : Tree) (cwd : Location) (path : String) : Tree :=
  match t.node cwd path, t.resolve cwd path with
  | .ok (.file _), .ok target => t.erase target.location
  | _, _ => t

/-- Why a command cannot be started if no file may be executed.  A command without a slash is
looked for in other directories than those of the tree; in each of them a point names a
directory. -/
def startError (t : Tree) (cwd : Location) (command : String) : FileError :=
  if command.contains '\x00' then .nulInArgument
  else if command.contains '/' then
    match t.node cwd command with
    | .error e => e
    | .ok _ => .permissionDenied
  else if command = "." || command = ".." then .permissionDenied
  else if command.utf8ByteSize > maxName then .nameTooLong
  else .notFound

/-! ## Directories -/

/-- The tree with a new directory. -/
def makeDir (t : Tree) (cwd : Location) (path : String) : Except FileError Tree := do
  let target ← t.resolve cwd path
  match t.find? target.location with
  | some _ => throw .alreadyExists
  | none => return t.put target.location .dir

/-- The tree with a directory and those above it, at most `depth` of them. -/
def makeDirsUpTo (t : Tree) (cwd : Location) : Nat → String → Except FileError Tree
  | 0, _ => .error .notFound
  | depth + 1, path =>
    if path.isEmpty then .ok t
    else
      match t.makeDir cwd path with
      | .ok t' => .ok t'
      | .error .notFound => do
        let above ← match Path.parent? path with
          | some p => makeDirsUpTo t cwd depth p
          | none => throw .notFound
        makeSure above path
      | .error e => if t.isDir cwd path then .ok t else .error e
where
  /-- The tree with a directory whose parent is there. -/
  makeSure (t : Tree) (path : String) : Except FileError Tree :=
    match t.makeDir cwd path with
    | .ok t' => .ok t'
    | .error e => if t.isDir cwd path then .ok t else .error e

/-- The tree with a directory and all directories above it. -/
def makeDirs (t : Tree) (cwd : Location) (path : String) : Except FileError Tree :=
  t.makeDirsUpTo cwd ((Path.parts path).length + 1) path

/-- The path of a location from the root. -/
def absolute (l : Location) : String := "/" ++ "/".intercalate l

/-- The path from the root of the node that a path names. -/
def canonical (t : Tree) (cwd : Location) (path : String) : Except FileError String := do
  let _ ← t.node cwd path
  let target ← t.resolve cwd path
  return absolute target.location

end Tree

end GoRepl
