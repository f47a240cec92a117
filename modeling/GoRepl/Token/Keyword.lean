/-! # Keywords

* `Keyword`: the 25 reserved words.
* `Keyword.ofString?`: the keyword a word spells, if any.
-/

namespace GoRepl

/-- The reserved words of the language. -/
inductive Keyword where
  | breakKw | caseKw | chanKw | constKw | continueKw | defaultKw | deferKw | elseKw
  | fallthroughKw | forKw | funcKw | goKw | gotoKw | ifKw | importKw | interfaceKw | mapKw
  | packageKw | rangeKw | returnKw | selectKw | structKw | switchKw | typeKw | varKw
  deriving Repr, DecidableEq, Inhabited

namespace Keyword

/-- The keywords in alphabetical order. -/
def all : List Keyword :=
  [breakKw, caseKw, chanKw, constKw, continueKw, defaultKw, deferKw, elseKw,
   fallthroughKw, forKw, funcKw, goKw, gotoKw, ifKw, importKw, interfaceKw, mapKw,
   packageKw, rangeKw, returnKw, selectKw, structKw, switchKw, typeKw, varKw]

def spelling : Keyword → String
  | breakKw => "break"
  | caseKw => "case"
  | chanKw => "chan"
  | constKw => "const"
  | continueKw => "continue"
  | defaultKw => "default"
  | deferKw => "defer"
  | elseKw => "else"
  | fallthroughKw => "fallthrough"
  | forKw => "for"
  | funcKw => "func"
  | goKw => "go"
  | gotoKw => "goto"
  | ifKw => "if"
  | importKw => "import"
  | interfaceKw => "interface"
  | mapKw => "map"
  | packageKw => "package"
  | rangeKw => "range"
  | returnKw => "return"
  | selectKw => "select"
  | structKw => "struct"
  | switchKw => "switch"
  | typeKw => "type"
  | varKw => "var"

/-- The keyword that `word` spells. -/
def ofString? (word : String) : Option Keyword := all.find? (·.spelling == word)

theorem spelling_of_ofString? {word : String} {k : Keyword} (h : ofString? word = some k) :
    k.spelling = word := by
  simpa using List.find?_some h

/-- Whether a line end behind the keyword ends the statement. -/
def endsStatement : Keyword → Bool
  | breakKw | continueKw | fallthroughKw | returnKw => true
  | _ => false

end Keyword

end GoRepl
