import GoRepl.CommandLine.Run

/-! # The program

The run itself is computed from its arguments, its environment, its input and the files it may
read.  Here these are fetched, and what the run leaves behind is put in place.  Other programs are
not started from here, so that every build reports that there is no compiler.
-/

namespace GoRepl

/-- Adds what a location holds to a tree. -/
def fetch (t : Tree) (l : Location) : IO Tree := do
  let path := Tree.absolute l
  try
    if ← (← IO.FS.realPath path).isDir then return t.put l .dir
    return t.put l (.file (← IO.FS.readBinFile path))
  catch _ => return t

/-- Adds what some paths name to a tree, with the directories above. -/
def fetchAll (cwd : Location) (t : Tree) (paths : List String) : IO Tree :=
  paths.foldlM (fun t path =>
    let l := Location.ofPath cwd path
    (List.range l.length).foldlM (fun t n => fetch t (l.take (n + 1))) t) t

/-- The files that a run may read. -/
def fetchFiles (env : Environment) (arguments : List String) : IO Tree := do
  match Invocation.ofArguments arguments with
  | .run o =>
    let t ← fetchAll env.cwd {} (Setup.settingsPaths env.cwd env.home o)
    match Setup.prepare t env.cwd env.home o with
    | .ok s => fetchAll env.cwd t (s.paths ++ (env.history? s.settings).toList)
    | .error _ => return t
  | _ => return {}

/-- Puts a change of the files in place. -/
def store : Location × Option Node → IO Unit
  | (l, some .dir) => IO.FS.createDirAll (Tree.absolute l)
  | (l, some (.file content)) => IO.FS.writeBinFile (Tree.absolute l) content
  | (l, none) => IO.FS.removeFile (Tree.absolute l)

end GoRepl

open GoRepl in
/-- Runs the program. -/
def main (arguments : List String) : IO UInt32 := do
  let env : Environment := {
    cwd := Location.ofPath [] (← IO.currentDir).toString
    home := ← IO.getEnv "HOME"
    historyPath := ← IO.getEnv "GOLOOP_HISTORY_PATH"
    colors := (← IO.getEnv "NO_COLOR").isNone
    terminal := ← IO.getEnv "TERM" }
  let before ← fetchFiles env arguments
  let input ← (← IO.getStdin).readBinToEnd
  let report := runArguments (fun _ => none) env before arguments input
  (← IO.getStdout).putStr report.stdout
  (← IO.getStderr).putStr report.stderr
  (before.changes report.files).forM store
  return report.exitCode.toUInt32
