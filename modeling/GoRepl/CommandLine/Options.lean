import GoRepl.Config.Settings

/-! # Options of the command line

* `Argument.ofString`: the form of one argument.
* `Options`: what the arguments choose.
* `Invocation.ofArguments`: reading the arguments from left to right.
* `Options.override`: the settings with what the arguments choose instead.
-/

namespace GoRepl

/-! ## Single arguments -/

/-- The form of an argument. -/
inductive Argument where
  /-- Text that stands for itself. -/
  | operand
  /-- The mark behind which all arguments stand for themselves. -/
  | endOfOptions
  /-- An option by its name, with the value behind an equals sign, if there is one. -/
  | long (name : String) (value : Option String)
  /-- Options by letters, of which the first decides. -/
  | short (letter : Char)
  deriving Repr, DecidableEq, Inhabited

/-- The form of an argument.  A single hyphen stands for itself. -/
def Argument.ofString (s : String) : Argument :=
  match s.toList with
  | ['-', '-'] => endOfOptions
  | '-' :: '-' :: r =>
    long (String.ofList (r.takeWhile (· != '=')))
      ((r.dropWhile (· != '=')).tail?.map String.ofList)
  | '-' :: letter :: _ => short letter
  | _ => operand

/-! ## Options -/

/-- What the arguments choose. -/
structure Options where
  /-- The name of the project; its session has a transcript. -/
  project : Option String := none
  /-- The command that compiles. -/
  go : Option String := none
  /-- The file that settings are read from. -/
  config : Option String := none
  stagingDir : Option String := none
  /-- Whether the source of the program is kept. -/
  debug : Bool := false
  noHistory : Bool := false
  deriving Repr, DecidableEq, Inhabited

namespace Options

/-- The options with a project, unless there is one already. -/
def withProject? (o : Options) (name : String) : Option Options :=
  if o.project.isSome then none else some { o with project := some name }

/-- Whether an option takes a value. -/
def takesValue (name : String) : Bool := ["go", "config", "staging-dir"].contains name

/-- The options with a value for the option `name`, which must be missing yet.  A path must not be
empty. -/
def withValue? (o : Options) (name value : String) : Option Options :=
  match name with
  | "go" => if o.go.isSome then none else some { o with go := some value }
  | "config" =>
    if o.config.isSome || value.isEmpty then none else some { o with config := some value }
  | "staging-dir" =>
    if o.stagingDir.isSome || value.isEmpty then none
    else some { o with stagingDir := some value }
  | _ => none

/-- The options with the switch `name` on, which must be off yet. -/
def withSwitch? (o : Options) (name : String) : Option Options :=
  match name with
  | "debug" => if o.debug then none else some { o with debug := true }
  | "no-history" => if o.noHistory then none else some { o with noHistory := true }
  | _ => none

/-- The settings with what the arguments choose instead. -/
def override (o : Options) (s : Settings) : Settings :=
  { s with
    go := o.go.getD s.go
    stagingDir := o.stagingDir.getD s.stagingDir
    image := o.project.getD s.image
    keepSource := s.keepSource || o.debug
    history := s.history && !o.noHistory }

end Options

/-! ## Whole command lines -/

/-- What a command line asks for. -/
inductive Invocation where
  | run (o : Options)
  | help
  | version
  /-- The command line makes no sense. -/
  | misuse
  deriving Repr, DecidableEq, Inhabited

namespace Invocation

/-- Reads arguments that all stand for themselves. -/
def readOperands (o : Options) : List String → Invocation
  | [] => run o
  | a :: rest =>
    match o.withProject? a with
    | some o => readOperands o rest
    | none => misuse

/-- Reads arguments behind those that chose `o`.  The first fault and the first request for help or
the version end the reading. -/
def read (o : Options) : List String → Invocation
  | [] => run o
  | a :: rest =>
    match Argument.ofString a with
    | .endOfOptions => readOperands o rest
    | .operand =>
      match o.withProject? a with
      | some o => read o rest
      | none => misuse
    | .short 'h' | .long "help" none => help
    | .short 'V' | .long "version" none => version
    | .short _ => misuse
    | .long name (some value) =>
      match o.withValue? name value with
      | some o => read o rest
      | none => misuse
    | .long name none =>
      if Options.takesValue name then
        match rest with
        | [] => misuse
        | value :: rest =>
          match Argument.ofString value, o.withValue? name value with
          | .operand, some o => read o rest
          | _, _ => misuse
      else
        match o.withSwitch? name with
        | some o => read o rest
        | none => misuse

/-- What a command line asks for. -/
def ofArguments (arguments : List String) : Invocation := read {} arguments

end Invocation

/-- The name of the program and its version. -/
def versionText : String := "goloop 0.5.0"

end GoRepl
