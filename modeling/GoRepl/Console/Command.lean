import GoRepl.Text.Blank

/-! # Input lines

A line is a control command, a request to evaluate or print something once, or a fragment of the
program.  Control commands start with a point and are told by the character behind it.

* `Command`: what an input line asks for.
* `Command.ofLine`: reading a line.
* `helpText`: the overview of the commands.
-/

namespace GoRepl

/-- What an input line asks for. -/
inductive Command where
  | nothing
  | quit
  /-- Show the declared names. -/
  | names
  | source
  | undo
  | help
  /-- Run a fragment once and forget it. -/
  | evalOnce (fragment : String)
  /-- Print the value of an expression once. -/
  | printOnce (expression : String)
  /-- A line with a point in front that is no command. -/
  | unknown (text : String)
  /-- A fragment for the program. -/
  | fragment (text : String)
  deriving Repr, DecidableEq, Inhabited

namespace Command

/-- The control commands. -/
def controls : List String := [".q", ".v", ".s", ".u", ".?"]

/-- The control command that a character behind the point stands for. -/
def control? : Char → Option Command
  | 'q' => some quit
  | 'v' => some names
  | 's' => some source
  | 'u' => some undo
  | '?' => some help
  | _ => none

/-- What a line asks for.  Blank characters at its ends do not count. -/
def ofLine (line : String) : Command :=
  let text := Text.trim line
  match text.toList with
  | [] => nothing
  | '.' :: r => (r.head?.bind control?).getD (unknown text)
  | '=' :: r => printOnce (String.ofList r)
  | '!' :: r => evalOnce (String.ofList r)
  | _ => fragment text

end Command

/-- The overview of the commands. -/
def helpText : String :=
  "[goloop] .q = quit, !<source> = eval once, =<source> = print once, " ++
    ".v = variables, .s = source, .u = undo, .? = help"

end GoRepl
