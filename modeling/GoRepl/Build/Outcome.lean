import GoRepl.Build.Staging
import GoRepl.Build.Toolchain
import GoRepl.Diagnostics.Noise
import GoRepl.Text.Lossy

/-! # Building and running a program

A build writes the source, compiles it and runs the result.  Afterwards nothing is left of it but,
if wanted, the source.

The files are those of an ideal tree: a file that a build has written can be read back and removed.
So the outputs are taken as the toolchain answers them, and not from the logs that hold them.

* `Outcome`: how a build ends.
* `Workshop`: where builds take place.
* `Workshop.build`: one build.
* `Workshop.cleanUp`: removing what builds leave.
-/

namespace GoRepl

/-- How a build ends. -/
inductive Outcome where
  /-- The program ran and printed this. -/
  | success (output : String)
  | sourceNotWritten (e : FileError)
  | compilerNotStarted (e : FileError)
  | rejected (diagnostics : String)
  | programNotStarted (e : FileError)
  /-- The program failed, or wrote to its error stream. -/
  | failed (output : String)
  deriving Repr, DecidableEq, Inhabited

namespace Outcome

def isSuccess : Outcome → Bool
  | success _ => true
  | _ => false

/-- What the user is told. -/
def text : Outcome → String
  | success output => output
  | sourceNotWritten e => "generate Go source failed: " ++ e.message
  | compilerNotStarted e => "cannot run compiler: " ++ e.message
  | rejected diagnostics => diagnostics
  | programNotStarted e => "cannot run program: " ++ e.message
  | failed output => output

/-- The outcome of a program that was run.  A failure without any output is told by its status. -/
def ofRun (r : ProgramRun) : Outcome :=
  let stdout := Text.Lossy.decode r.stdout
  let stderr := Text.Lossy.decode r.stderr
  if r.status.isSuccess && stderr.isEmpty then success stdout
  else
    let output := stdout ++ stderr
    failed (if Text.isBlankText output then r.status.message else output)

end Outcome

/-- A build that got as far as the compiler: the program text that was compiled, and how the build
ended. -/
structure Build where
  program : String
  outcome : Outcome
  deriving Repr, DecidableEq, Inhabited

/-- Where builds take place: the files they write, and whether the source is kept. -/
structure Workshop where
  staging : Staging
  keepSource : Bool
  deriving Repr, DecidableEq, Inhabited

namespace Workshop

/-- The tree with some files written, as far as that is possible; a path may name a directory. -/
def writeAll (t : Tree) (files : List (String × ByteArray)) : Tree :=
  files.foldl (fun t f => (t.write [] f.1 f.2).toOption.getD t) t

/-- The tree without some files. -/
def removeAll (t : Tree) (paths : List String) : Tree := paths.foldl (·.remove []) t

/-- Runs the compiled program, with its output redirected to the logs. -/
def launch (w : Workshop) (c : Toolchain) (t : Tree) (program : String) : Outcome × Tree :=
  match t.write [] w.staging.runLog .empty with
  | .error e => (.programNotStarted e, t)
  | .ok t =>
    match t.write [] w.staging.errLog .empty with
    | .error e => (.programNotStarted e, t)
    | .ok t =>
      match c.run program with
      | .error e => (.programNotStarted e, t)
      | .ok r =>
        (.ofRun r, writeAll t [(w.staging.runLog, r.stdout), (w.staging.errLog, r.stderr)])

/-- Compiles the staged source, with the output redirected to a log, and runs the result.  Also
tells whether the compiler was asked. -/
def compile (w : Workshop) (c : Toolchain) (t : Tree) (program : String) :
    Outcome × Bool × Tree :=
  match t.write [] w.staging.buildLog .empty with
  | .error e => (.compilerNotStarted e, false, t)
  | .ok t =>
    match c.compile t program with
    | .error e => (.compilerNotStarted e, true, t)
    | .ok r =>
      let t := writeAll t ((w.staging.buildLog, r.output) ::
        (r.artifact.map fun a => (w.staging.artifact, a)).toList)
      if r.status.isSuccess then
        let (o, t) := w.launch c t program
        (o, true, t)
      else (.rejected (Diagnostics.filterNoise (Text.Lossy.decode r.output)), true, t)

/-- The build before anything is removed. -/
def attempt (w : Workshop) (c : Toolchain) (t : Tree) (program : String) :
    Outcome × Bool × Tree :=
  match t.write [] w.staging.source program.toUTF8 with
  | .error e => (.sourceNotWritten e, false, t)
  | .ok t => w.compile c t program

/-- The tree after a build: without the scratch files, and without the source unless it is kept. -/
def sweep (w : Workshop) (t : Tree) : Tree :=
  let t := removeAll t w.staging.scratch
  if w.keepSource then t else t.remove [] w.staging.source

/-- Builds and runs a program: how that ends, the build if the compiler was asked, and the files
afterwards. -/
def build (w : Workshop) (c : Toolchain) (t : Tree) (program : String) :
    Outcome × Option Build × Tree :=
  let (o, asked, t) := w.attempt c t program
  (o, if asked then some ⟨program, o⟩ else none, w.sweep t)

/-- The tree without any file of a build. -/
def cleanUp (w : Workshop) (t : Tree) : Tree := removeAll t w.staging.all

end Workshop

end GoRepl
