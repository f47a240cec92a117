import GoRepl.Console.Color
import GoRepl.Console.Input
import GoRepl.Session.Dispatch

/-! # The console

The console collects lines until they make up an input, and gives that to its session.

* `Message`: what a console writes.
* `Console`: the session, the lines collected, and what happened so far.
* `Console.feed`, `Console.feedAll`: reading lines.
* `Console.shown`: all that was written.
-/

namespace GoRepl

/-- A reply as it is shown. -/
def Session.Reply.shown (colors : Bool) : Session.Reply → String
  | .silent | .quit => ""
  | .output text => if text.toList.getLast? = some '\n' then text else text ++ "\n"
  | .failure e => Color.red.paint colors e.message ++ "\n"

/-- What a console writes. -/
inductive Message where
  /-- The request for a line; `continued` if the input is not complete yet. -/
  | prompt (continued : Bool)
  | reply (r : Session.Reply)
  deriving Repr, DecidableEq, Inhabited

/-- A message as it is shown.  Prompts may be left out. -/
def Message.shown (colors prompts : Bool) : Message → String
  | prompt continued =>
    if !prompts then ""
    else if continued then Color.gray.paint colors "..." ++ " "
    else Color.cyan.paint colors "go>" ++ " "
  | reply r => r.shown colors

/-- A console. -/
structure Console where
  session : Session
  /-- The lines of the input that is not complete yet. -/
  pending : String := ""
  /-- The inputs given to the session. -/
  entered : List String := []
  /-- What was written. -/
  messages : List Message := []
  /-- The builds it took. -/
  builds : List Build := []
  deriving DecidableEq, Inhabited

/-- Why a console stops reading. -/
inductive Ending where
  | quit
  | endOfInput
  /-- The next line cannot be read. -/
  | unreadable (fault : InputFault)
  deriving Repr, DecidableEq, Inhabited

namespace Console

/-- A console for a session that is restored from its transcript.  If the transcript cannot be read,
the session starts empty; the error is given, too. -/
def start (c : Toolchain) (s : Session) : Console × Option FileError :=
  match s.replay c with
  | .ok t =>
    ({ session := t.session, messages := t.value.map .reply, builds := t.build.toList }, none)
  | .error e => ({ session := s }, some e)

/-- Gives an input to the session. -/
def enter (c : Toolchain) (s : Console) (input : String) : Console :=
  let t := s.session.dispatch c input
  { session := t.session
    pending := ""
    entered := s.entered ++ [input]
    messages := s.messages ++ [.reply t.value]
    builds := s.builds ++ t.build.toList }

/-- Reads a line.  Blank lines between inputs do not count. -/
def feed (c : Toolchain) (s : Console) (line : String) : Console :=
  if s.pending.isEmpty && Text.isBlankText line then s
  else
    let text := Framing.extend s.pending line
    if Framing.needsMore text then { s with pending := text } else s.enter c text

/-- Whether the user has left. -/
def isClosed (s : Console) : Bool := s.messages.getLast? == some (.reply .quit)

/-- Asks for a line. -/
def ask (s : Console) : Console :=
  { s with messages := s.messages ++ [.prompt (!s.pending.isEmpty)] }

/-- Reads lines until the user leaves, a line cannot be read, or none is left. -/
def feedAll (c : Toolchain) : Console → List (Except InputFault String) → Console × Ending
  | s, [] => (s.ask, .endOfInput)
  | s, .error fault :: _ => (s.ask, .unreadable fault)
  | s, .ok line :: rest =>
    let s' := s.ask.feed c line
    if s'.isClosed then (s', .quit) else feedAll c s' rest

/-- All messages as they are shown. -/
def shown (colors prompts : Bool) (s : Console) : String :=
  String.join (s.messages.map (·.shown colors prompts))

end Console

end GoRepl
