import GoRepl.Console.Deletion

/-! # Lines read from bytes

* `InputFault`: why a line cannot be read.
* `Input.cut`: bytes cut at the line feeds.
* `Input.lines`: the lines of some bytes, as far as each can be read.
-/

namespace GoRepl

/-- Why a line cannot be read. -/
inductive InputFault where
  /-- Its bytes are no text. -/
  | notText
  /-- A deletion in it ends inside a character. -/
  | splitCharacter
  deriving Repr, DecidableEq, Inhabited

namespace Input

/-- Bytes cut at the line feeds: the lines that are closed by one, and the rest. -/
def cut : List UInt8 → List (List UInt8) × List UInt8
  | [] => ([], [])
  | b :: r =>
    match cut r with
    | (lines, rest) =>
      if b = 10 then ([] :: lines, rest)
      else
        match lines with
        | [] => ([], b :: rest)
        | l :: ls => ((b :: l) :: ls, rest)

/-- Bytes as text, if they are. -/
def text? (bytes : List UInt8) : Option String := String.fromUTF8? ⟨bytes.toArray⟩

/-- A closed line without the carriage return that may end it. -/
def withoutReturn (bytes : List UInt8) : List UInt8 :=
  if bytes.getLast? = some 13 then bytes.dropLast else bytes

/-- A line with its deletions done. -/
def line (bytes : List UInt8) : Except InputFault String :=
  match text? bytes with
  | none => .error .notText
  | some text =>
    match withoutDeletions? text with
    | none => .error .splitCharacter
    | some text => .ok text

/-- The lines of some bytes.  Bytes behind the last line feed are a line as they are. -/
def lines (bytes : ByteArray) : List (Except InputFault String) :=
  let (closed, rest) := cut bytes.toList
  closed.map (fun l => line (withoutReturn l)) ++ if rest.isEmpty then [] else [line rest]

end Input

end GoRepl
