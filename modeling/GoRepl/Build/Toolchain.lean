import GoRepl.Files.Tree

/-! # What compiling and running do

The compiler and the compiled program are not part of this library.  A toolchain says how they
answer to a program text.  What they answer is all that they do to the files: the compiler writes
its artifact, the outputs go to the logs, and every other file is left alone.

* `ExitStatus`: how a process ends.
* `CompilerRun`, `ProgramRun`: what a process leaves behind.
* `Toolchain`: the answers to program texts.
* `Toolchain.unavailable`, `Toolchain.missing`: toolchains that cannot be started.
-/

namespace GoRepl

/-- How a process ends. -/
inductive ExitStatus where
  | code (n : Nat)
  | signal (n : Nat)
  deriving Repr, DecidableEq, Inhabited

namespace ExitStatus

def isSuccess (s : ExitStatus) : Bool := s == code 0

/-- The names of the signals, from 1 on. -/
def signalNames : List String :=
  ["SIGHUP", "SIGINT", "SIGQUIT", "SIGILL", "SIGTRAP", "SIGABRT", "SIGBUS", "SIGFPE", "SIGKILL",
   "SIGUSR1", "SIGSEGV", "SIGUSR2", "SIGPIPE", "SIGALRM", "SIGTERM", "SIGSTKFLT", "SIGCHLD",
   "SIGCONT", "SIGSTOP", "SIGTSTP", "SIGTTIN", "SIGTTOU", "SIGURG", "SIGXCPU", "SIGXFSZ",
   "SIGVTALRM", "SIGPROF", "SIGWINCH", "SIGIO", "SIGPWR", "SIGSYS"]

/-- The wording of the status. -/
def message : ExitStatus → String
  | code n => "exit status: " ++ toString n
  | signal n =>
    match signalNames[n - 1]? with
    | some name => "signal: " ++ toString n ++ " (" ++ name ++ ")"
    | none => "signal: " ++ toString n

end ExitStatus

/-- What a compiler that was started leaves behind. -/
structure CompilerRun where
  status : ExitStatus
  output : ByteArray
  /-- The content of the artifact, if one was written. -/
  artifact : Option ByteArray
  deriving Inhabited

/-- What a compiled program that was started leaves behind. -/
structure ProgramRun where
  status : ExitStatus
  stdout : ByteArray
  stderr : ByteArray
  deriving Inhabited

/-- How the compiler and the compiled program answer to a program text.  Each may fail to start;
for the compiler that may depend on the files. -/
structure Toolchain where
  compile : Tree → String → Except FileError CompilerRun
  run : String → Except FileError ProgramRun

/-- A toolchain that cannot be started. -/
def Toolchain.unavailable (e : FileError) : Toolchain := ⟨fun _ _ => .error e, fun _ => .error e⟩

/-- The toolchain of a command, given in the directory `cwd`, that names no program. -/
def Toolchain.missing (cwd : Location) (command : String) : Toolchain where
  compile := fun t _ => .error (t.startError cwd command)
  run := fun _ => .error .notFound

end GoRepl
