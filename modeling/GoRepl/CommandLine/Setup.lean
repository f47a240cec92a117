import GoRepl.CommandLine.Options
import GoRepl.Session.Basic

/-! # Setting up a session

* `prepareStaging`: making the directory for the files of builds.
* `Setup.prepare`: the session that options and settings ask for.
-/

namespace GoRepl

/-- Why no session can be set up. -/
inductive SetupError where
  | config (e : ConfigError)
  | stagingDir (path : String) (e : FileError)
  deriving Repr, DecidableEq, Inhabited

/-- The wording of the error. -/
def SetupError.message : SetupError → String
  | config e => e.message
  | stagingDir path e => "cannot use staging directory '" ++ path ++ "': " ++ e.message

/-- Makes the directory for the files of builds; gives its path from the root. -/
def prepareStaging (t : Tree) (cwd : Location) (dir : String) :
    Except SetupError (String × Tree) :=
  match t.makeDirs cwd dir with
  | .error e => .error (.stagingDir dir e)
  | .ok t =>
    match t.canonical cwd dir with
    | .error e => .error (.stagingDir dir e)
    | .ok path => .ok (path, t)

/-- A session and the settings it was set up with. -/
structure Setup where
  settings : Settings
  /-- The build flags as separate arguments. -/
  flags : List String
  session : Session
  deriving DecidableEq, Inhabited

namespace Setup

/-- The arguments of the compiler in this session. -/
def compileArguments (s : Setup) : List String :=
  let staging := s.session.workshop.staging
  Settings.compileArguments s.flags staging.source staging.artifact

/-- The paths of the files that the session may read or write. -/
def paths (s : Setup) : List String :=
  s.session.workshop.staging.all ++ s.session.transcript.toList

/-- The settings in the file chosen, or else in the file found. -/
def settings? (t : Tree) (cwd : Location) (home : Option String) (o : Options) :
    Except ConfigError Settings :=
  match o.config with
  | some path => Settings.loadFrom t cwd path
  | none => Settings.load t cwd home

/-- The paths of the files that settings may be in. -/
def settingsPaths (cwd : Location) (home : Option String) (o : Options) : List String :=
  o.config.toList ++ Settings.candidates cwd home

/-- Sets a session up.  It has a transcript if there is a project. -/
def prepare (t : Tree) (cwd : Location) (home : Option String) (o : Options) :
    Except SetupError Setup := do
  let settings := o.override (← (settings? t cwd home o).mapError .config)
  let (dir, files) ← prepareStaging t cwd settings.stagingDir
  let flags ← settings.flags.mapError .config
  return {
    settings, flags
    session := {
      files
      workshop := ⟨.inDir dir settings.image, settings.keepSource⟩
      transcript := o.project.map (transcriptPath dir) } }

end Setup

end GoRepl
