import GoRepl.CommandLine.Setup
import GoRepl.Console.History
import GoRepl.Console.Input
import GoRepl.Console.Loop

/-! # Running the program

A run reads its input to the end and leaves a report: what is written, the builds, and the files.

* `Environment`: what a run takes from the user's environment.
* `Report`: what a run leaves behind.
* `toolchainOf`: how the compiler of a session answers.
* `runSession`, `runOptions`, `runArguments`: runs.
-/

namespace GoRepl

/-- What a run takes from the user's environment. -/
structure Environment where
  /-- The working directory. -/
  cwd : Location
  home : Option String
  /-- The choice for the path of the history. -/
  historyPath : Option String := none
  colors : Bool := true
  /-- The kind of the terminal. -/
  terminal : Option String := none
  deriving Repr, DecidableEq, Inhabited

/-- What a run leaves behind. -/
structure Report where
  exitCode : Nat
  stdout : String := ""
  stderr : String := ""
  /-- Why there was no session, if so. -/
  failure : Option SetupError := none
  /-- The arguments of the compiler. -/
  compileArguments : List String := []
  builds : List Build := []
  files : Tree
  deriving DecidableEq, Inhabited

namespace Environment

/-- Whether prompts are shown although the input is not typed: on terminals that cannot edit
lines. -/
def prompts (env : Environment) : Bool :=
  env.terminal.any fun name => ["dumb", "cons25", "emacs"].contains (name.map Char.toLower)

/-- The report of an error that ends the run. -/
def error (env : Environment) (message : String) : String :=
  Color.red.paint env.colors "error:" ++ " " ++ message ++ "\n"

/-- The report of an error that does not end the run. -/
def warning (env : Environment) (message : String) : String :=
  Color.red.paint env.colors "Warning:" ++ " " ++ message ++ "\n"

/-- The path of the history, if it is kept. -/
def history? (env : Environment) (s : Settings) : Option String :=
  if s.history then History.path? env.home env.historyPath else none

/-- The warning if a history is there but cannot be read. -/
def historyWarning (env : Environment) (t : Tree) (path : String) : String :=
  match t.has env.cwd path, t.readText env.cwd path with
  | true, .error e => env.warning ("failed to load history from " ++ path ++ ": " ++ e.message)
  | _, _ => ""

/-- Makes the directory of a history; the warning if that fails. -/
def makeHistoryDir (env : Environment) (t : Tree) (path : String) : String × Tree :=
  match Path.parent? path with
  | none => ("", t)
  | some dir =>
    match t.makeDirs env.cwd dir with
    | .ok t => ("", t)
    | .error e =>
      (env.warning ("failed to create history directory " ++ dir ++ ": " ++ e.message), t)

end Environment

/-- Runs a session on the lines of some input.  The history is read, but input that is not typed
adds nothing to it.  A deletion that cannot be done ends the run at once, with the files as they
are. -/
def runSession (c : Toolchain) (env : Environment) (setup : Setup) (input : ByteArray) :
    Report :=
  let history := env.history? setup.settings
  let (console, e?) := Console.start c setup.session
  let unread := (e?.map fun e => env.warning ("failed to read transcript " ++
    setup.session.transcript.getD "" ++ ": " ++ e.message)).getD ""
  let unloaded := (history.map (env.historyWarning console.session.files)).getD ""
  let (console, ending) := console.feedAll c (Input.lines input)
  let report (exitCode : Nat) (complaint : String) (s : Session) : Report :=
    { exitCode
      stdout := helpText ++ "\n" ++ console.shown env.colors env.prompts
      stderr := unread ++ unloaded ++ complaint
      compileArguments := setup.compileArguments
      builds := console.builds
      files := s.files }
  match ending with
  | .unreadable .notText =>
    report 1 (env.error FileError.notUtf8.message) console.session.shutdown
  | .unreadable .splitCharacter =>
    report 101 (env.error "a deletion ends inside a character") console.session
  | .quit | .endOfInput =>
    match history with
    | none => report 0 "" console.session.shutdown
    | some path =>
      let (complaint, files) := env.makeHistoryDir console.session.files path
      report 0 complaint { console.session with files }.shutdown

/-- The toolchain of a session.  `toolchains` says which commands are compilers and how they answer;
none can be given a NUL. -/
def toolchainOf (toolchains : String → Option Toolchain) (env : Environment) (setup : Setup) :
    Toolchain :=
  if setup.compileArguments.any (·.contains '\x00') then .unavailable .nulInArgument
  else (toolchains setup.settings.go).getD (.missing env.cwd setup.settings.go)

/-- Runs the session that some options ask for. -/
def runOptions (toolchains : String → Option Toolchain) (env : Environment) (t : Tree) (o : Options)
    (input : ByteArray) : Report :=
  match Setup.prepare t env.cwd env.home o with
  | .error e =>
    { exitCode := 1, stderr := env.error e.message, failure := some e, files := t }
  | .ok setup => runSession (toolchainOf toolchains env setup) env setup input

/-- Runs what a command line asks for. -/
def runArguments (toolchains : String → Option Toolchain) (env : Environment) (t : Tree)
    (arguments : List String) (input : ByteArray) : Report :=
  match Invocation.ofArguments arguments with
  | .run o => runOptions toolchains env t o input
  | .help => { exitCode := 0, stdout := usage ++ "\n", files := t }
  | .version => { exitCode := 0, stdout := versionText ++ "\n", files := t }
  | .misuse => { exitCode := 2, stderr := usage ++ "\n", files := t }
where
  /-- The form of the command line. -/
  usage : String := "Usage: goloop [OPTIONS] [PROJECT]"

end GoRepl
