import GoRepl.Files.Path

/-! # The files of a build

* `Staging`: the paths of the source, the artifact and the logs of a build.
* `Staging.inDir`: those of a program called `image` in a directory.
* `transcriptPath`: the path of the transcript of a project.
-/

namespace GoRepl

/-- The paths of the files that a build writes. -/
structure Staging where
  source : String
  artifact : String
  buildLog : String
  runLog : String
  errLog : String
  deriving Repr, DecidableEq, Inhabited

namespace Staging

/-- The paths for a program called `image` in the directory `dir`. -/
def inDir (dir image : String) : Staging where
  source := Path.join dir (image ++ ".go")
  artifact := Path.join dir image
  buildLog := Path.join dir (image ++ ".build.log")
  runLog := Path.join dir (image ++ ".run.log")
  errLog := Path.join dir (image ++ ".err.log")

/-- The files that no build leaves behind: all but the source. -/
def scratch (s : Staging) : List String := [s.artifact, s.buildLog, s.runLog, s.errLog]

/-- All files. -/
def all (s : Staging) : List String := s.scratch ++ [s.source]

end Staging

/-- The path of the transcript of `project` in the directory `dir`. -/
def transcriptPath (dir project : String) : String := Path.join dir (project ++ ".changes")

end GoRepl
