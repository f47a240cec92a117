import GoRepl.Files.Path
import GoRepl.Text.Blank

/-! # Where the line history is kept

* `History.path?`: the path of the history file, if there is one.
-/

namespace GoRepl.History

/-- The path without `~/` at its front. -/
def withoutTilde (path : String) : String :=
  match path.toList with
  | '~' :: '/' :: r => String.ofList r
  | _ => path

/-- The path of the history file.  A chosen path counts from the home directory unless it is
absolute, and `~` stands for that directory; without a choice it is `.goloop/history` there. -/
def path? (home chosen : Option String) : Option String :=
  let choice := Text.trim (chosen.getD "")
  if choice.isEmpty then home.map fun h => Path.join (Path.join h ".goloop") "history"
  else if choice == "~" then home
  else
    let path := withoutTilde choice
    if Path.isAbsolute path then some path else home.map (Path.join · path)

end GoRepl.History
