import GoRepl.Console.Command
import GoRepl.Session.Basic

/-! # Lines of input in a session

* `Session.dispatch`: what a line of input does, and what is shown for it.
-/

namespace GoRepl.Session

/-- Handles one line of input. -/
def dispatch (s : Session) (c : Toolchain) (line : String) : Turn Reply :=
  match Command.ofLine line with
  | .nothing => s.unchanged .silent
  | .quit => s.unchanged .quit
  | .names => s.unchanged (.output s.variablesListing)
  | .source => s.unchanged (.ofText s.sourceListing)
  | .undo => s.undo.map .output
  | .help => s.unchanged (.output helpText)
  | .evalOnce fragment => (s.evaluateOnce c fragment).map .ofAnswer
  | .printOnce expression => (s.printOnce c expression).map .ofAnswer
  | .unknown text => s.unchanged (.failure (.unknownCommand text))
  | .fragment text => (s.submit c .buildAndRun text).map .ofAnswer

end GoRepl.Session
