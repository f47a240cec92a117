import GoRepl.Build.Outcome
import GoRepl.Diagnostics.Location
import GoRepl.Fragment.Shape
import GoRepl.Program.Layout
import GoRepl.Session.Transcript

/-! # Sessions

A session keeps the log of the accepted fragments.  A fragment is accepted if the program still
builds and runs with it; otherwise the session is as before.

* `Session`: the log, the number of the latest submission, and the files.
* `Turn`: the result of an operation, the session after it, and the build it took.
* `Session.submit`, `Session.evaluateOnce`, `Session.printOnce`, `Session.undo`: the operations.
* `Session.replay`: restoring a session from its transcript.
-/

namespace GoRepl

open Syntax

/-- Why a line is rejected. -/
inductive SubmitError where
  | parse (e : ParseError)
  /-- The source of the program could not be written. -/
  | generation (text : String)
  | compile (text : String)
  | runtime (text : String)
  | unknownCommand (text : String)
  deriving Repr, DecidableEq, Inhabited

/-- The wording of the error. -/
def SubmitError.message : SubmitError → String
  | parse e => e.message
  | generation text | compile text | runtime text => text
  | unknownCommand text => "[goloop] \"" ++ text ++ "\": command not found"

/-- Whether a fragment is accepted only after a build, or as it is. -/
inductive Mode where
  | buildAndRun
  | accumulate
  deriving Repr, DecidableEq, Inhabited

/-- A session. -/
structure Session where
  log : Log := {}
  /-- The number of the latest submission; 0 before the first.  It counts the fragments that
  survive and has no bound; while these are fewer than `2 ^ 32 - 1`, a counter of 32 bits does not
  overflow either. -/
  sequence : Nat := 0
  files : Tree
  workshop : Workshop
  /-- The path of the transcript, in the session of a project. -/
  transcript : Option String := none
  deriving DecidableEq, Inhabited

/-- The result of an operation, the session after it, and the build it took, if any. -/
structure Turn (α : Type) where
  value : α
  session : Session
  build : Option Build := none

/-- The result with `f` applied. -/
def Turn.map {α β : Type} (f : α → β) (t : Turn α) : Turn β := ⟨f t.value, t.session, t.build⟩

/-- What a submission answers: what the program printed, or why it was rejected. -/
abbrev Answer := Except SubmitError String

/-- What undoing answers when nothing is left. -/
def noSource : String := "(no go source)"

namespace Session

/-! ## Listings -/

/-- The declared names in brackets. -/
def variablesListing (s : Session) : String :=
  "[" ++ " ".intercalate s.log.declaredNames ++ "]"

/-- The fragments of the log, imports first. -/
def fragments (s : Session) : List String := s.log.listing.map (·.text)

/-- The fragments of the log, numbered. -/
def sourceListing (s : Session) : String :=
  Text.joinLines (s.fragments.zipIdx.map fun (text, i) =>
    " " ++ toString (i + 1) ++ ":\t" ++ text)

/-! ## Steps -/

/-- A turn that changes nothing. -/
def unchanged {α : Type} (s : Session) (a : α) : Turn α := ⟨a, s, none⟩

/-- The session with one more entry. -/
def append (s : Session) (e : Entry) : Session := { s with log := s.log.append e }

/-- The session without the submissions from `watermark` on. -/
def rollback (s : Session) (watermark : Nat) : Session :=
  let log := s.log.rollback watermark
  { s with log, sequence := log.lastSequence?.getD 0 }

/-- The session with its transcript saved, if it has one and that can be written. -/
def persist (s : Session) : Session :=
  match s.transcript with
  | none => s
  | some path =>
    match Transcript.save s.files path s.fragments with
    | .ok files => { s with files }
    | .error _ => s

/-- What the outcome of building the program `p` of a log means for a submission. -/
def answerOf (p : Program) (l : Log) : Outcome → Answer
  | .success output => .ok output
  | o@(.sourceNotWritten _) => .error (.generation o.text)
  | o@(.compilerNotStarted _) | o@(.rejected _) =>
    .error (.compile (Diagnostics.annotate o.text p l))
  | o@(.programNotStarted _) | o@(.failed _) => .error (.runtime o.text)

/-- Builds and runs the program of the log. -/
def build (s : Session) (c : Toolchain) : Turn Answer :=
  let p := Program.ofLog s.log
  let (o, b, files) := s.workshop.build c s.files p.text
  ⟨answerOf p s.log o, { s with files }, b⟩

/-! ## Submissions -/

/-- Prints the value of an expression.  Nothing of that is kept. -/
def printOnce (s : Session) (c : Toolchain) (expression : String) : Turn Answer :=
  let text := Text.trim expression
  match parseExpression text with
  | .error e => s.unchanged (.error (.parse e))
  | .ok _ =>
    let n := s.sequence + 1
    let t := (s.append ⟨n, .print, Echo.expression text⟩).build c
    { t with session := t.session.rollback n }

/-- Prints the value of an expression, unless fragments are only accumulated. -/
def printValue (s : Session) (c : Toolchain) (mode : Mode) (expression : String) : Turn Answer :=
  match mode with
  | .buildAndRun => s.printOnce c expression
  | .accumulate => s.unchanged (.ok "")

/-- The names whose values are shown when a fragment of this shape is accepted. -/
def echoed (shape : Shape) : List String := shape.declared ++ shape.assigned

/-- What a fragment of a given shape is in a log.  An assignment to a name that is not declared
yet is taken for the declaration of all its names. -/
def kindOf (l : Log) (shape : Shape) : EntryKind :=
  if shape.isImport then .imports shape.imported
  else if !shape.declared.isEmpty then .declaration shape.declared
  else if !shape.assigned.isEmpty then
    if shape.assigned.all l.isDeclared then .assignment else .declaration shape.assigned
  else .statement

/-- Keeps the fragment that was appended in submission `n` if the program builds and runs. -/
def keepIfBuilt (s : Session) (c : Toolchain) (n : Nat) (persisted : Bool) : Turn Answer :=
  let t := s.build c
  match t.value with
  | .ok _ => if persisted then { t with session := t.session.persist } else t
  | .error _ => { t with session := t.session.rollback n }

/-- Enters a fragment that is no bare value into the log.  Imports are accepted unbuilt, because a
program with an unused import does not compile. -/
def enter (s : Session) (c : Toolchain) (mode : Mode) (persisted : Bool) (text : String)
    (shape : Shape) : Turn Answer :=
  let n := s.sequence + 1
  let s' := { s with sequence := n }.append ⟨n, kindOf s.log shape, text⟩
  if shape.isImport then
    (if persisted then s'.persist else s').unchanged (.ok "")
  else if mode = .accumulate then s'.unchanged (.ok "")
  else
    let names := echoed shape
    let s' := if names.isEmpty then s' else s'.append ⟨n, .print, Echo.values names⟩
    s'.keepIfBuilt c n persisted

/-- Submits a fragment.  A declared name and a bare value are printed and not kept. -/
def submitWith (s : Session) (c : Toolchain) (mode : Mode) (persisted : Bool)
    (fragment : String) : Turn Answer :=
  let text := Text.trim fragment
  if text.isEmpty then s.unchanged (.ok "")
  else if s.log.isDeclared text then s.printValue c mode text
  else
    match Shape.ofSource text with
    | .error e => s.unchanged (.error (.parse e))
    | .ok shape =>
      if shape.use? = some .value then s.printValue c mode text
      else s.enter c mode persisted text shape

/-- Submits a fragment and saves the transcript if it is accepted. -/
def submit (s : Session) (c : Toolchain) (mode : Mode) (fragment : String) : Turn Answer :=
  s.submitWith c mode true fragment

/-- Builds and runs a fragment as if it were submitted, and forgets it. -/
def evaluateOnce (s : Session) (c : Toolchain) (fragment : String) : Turn Answer :=
  let t := s.submitWith c .buildAndRun false fragment
  { t with session := t.session.rollback (s.sequence + 1) }

/-- Takes the latest submission back, and answers with the listing that remains. -/
def undo (s : Session) : Turn String :=
  match s.log.lastSequence? with
  | none => s.unchanged noSource
  | some n =>
    let s' := (s.rollback n).persist
    s'.unchanged (if s'.log.isEmpty then noSource else s'.sourceListing)

/-! ## Replies -/

/-- What the user is shown after a line. -/
inductive Reply where
  | silent
  | output (text : String)
  | failure (e : SubmitError)
  | quit
  deriving Repr, DecidableEq, Inhabited

/-- A text to show; an empty one is not shown. -/
def Reply.ofText (text : String) : Reply := if text.isEmpty then .silent else .output text

/-- What is shown of an answer. -/
def Reply.ofAnswer : Answer → Reply
  | .ok text => .ofText text
  | .error e => .failure e

/-! ## Transcripts -/

/-- Enters fragments unbuilt, one after another; also gives the errors of those rejected. -/
def accumulate (s : Session) (c : Toolchain) : List String → List SubmitError × Session
  | [] => ([], s)
  | f :: fs =>
    let t := s.submitWith c .accumulate false f
    let (errors, s') := t.session.accumulate c fs
    match t.value with
    | .ok _ => (errors, s')
    | .error e => (e :: errors, s')

/-- Restores the session from its transcript and builds the result once.  The replies are the
rejected fragments, the failure of the build, and the listing. -/
def replay (s : Session) (c : Toolchain) : Except FileError (Turn (List Reply)) := do
  let fs ← match s.transcript with
    | none => pure []
    | some path => Transcript.load s.files path
  if fs.isEmpty then return s.unchanged []
  let (errors, s') := s.accumulate c fs
  let rejected := errors.map Reply.failure
  if s'.log.isEmpty then return s'.unchanged rejected
  let t := s'.build c
  let failures := match t.value with
    | .ok _ => []
    | .error e => [Reply.failure e]
  return { t with value := rejected ++ failures ++ [.output s'.sourceListing] }

/-- The session at its end, with the files of builds removed. -/
def shutdown (s : Session) : Session := { s with files := s.workshop.cleanUp s.files }

end Session

end GoRepl
