import GoRepl.Files.Tree
import GoRepl.Fragment.Framing
import GoRepl.Text.Lines

/-! # Transcripts

The transcript of a project is a file with the fragments of its session, one after another, each
closed by a line feed.

* `Transcript.ofFragments`: the text of a transcript.
* `Transcript.fragments`: the fragments in a text; an unfinished one at the end counts.
* `Transcript.load`, `Transcript.save`: transcripts in files.
-/

namespace GoRepl.Transcript

/-- The text of a transcript. -/
def ofFragments (fs : List String) : String := Text.unlines fs

/-- The fragments in a text. -/
def fragments (text : String) : List String :=
  let (fs, rest) := Framing.group "" (Text.lines text)
  if rest.isEmpty then fs else fs ++ [rest]

/-- The fragments in a file; none if it is not there. -/
def load (t : Tree) (path : String) : Except FileError (List String) :=
  match t.readText [] path with
  | .ok text => .ok (fragments text)
  | .error .notFound => .ok []
  | .error e => .error e

/-- The tree with a transcript in a file. -/
def save (t : Tree) (path : String) (fs : List String) : Except FileError Tree :=
  t.write [] path (ofFragments fs).toUTF8

end GoRepl.Transcript
