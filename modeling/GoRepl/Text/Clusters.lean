import GoRepl.Text.JoinClass

/-! # What a user takes for one character

A text is cut into clusters, runs of characters that join.  Whether a character joins the cluster
before it depends on its class and on what the cluster ends with.

* `ClusterEnd`: what a cluster ends with.
* `ClusterEnd.joins`: whether a character joins the cluster.
* `clusters`: the clusters of a text; `flatten_clusters`: they are the text.
-/

namespace GoRepl.Text

/-- How far a run that may join two letters has come. -/
inductive Link where
  /-- No such run. -/
  | absent
  /-- It has begun, and does not join yet. -/
  | begun
  /-- It joins the next letter. -/
  | ready
  deriving Repr, DecidableEq, Inhabited

/-- What a cluster ends with. -/
structure ClusterEnd where
  /-- The class of its last character. -/
  last : JoinClass
  /-- Whether an odd number of letters of flags stands at the end. -/
  oddRegional : Bool := false
  /-- A pictograph, characters that extend it, and a joiner. -/
  pictograph : Link := .absent
  /-- A consonant, and characters that extend it with a linker among them. -/
  conjunct : Link := .absent
  deriving Repr, DecidableEq, Inhabited

namespace JoinClass

/-- Whether a character of the class belongs to whatever stands before it. -/
def attaches : JoinClass → Bool
  | extending | linker | nonJoiner | joiner | spacingMark => true
  | _ => false

/-- Whether a character of the class always stands alone. -/
def isControl : JoinClass → Bool
  | carriageReturn | lineFeed | control => true
  | _ => false

/-- Whether the parts of Hangul syllables join. -/
def syllableJoins : JoinClass → JoinClass → Bool
  | leadingJamo, k => k ∈ [leadingJamo, vowelJamo, openSyllable, closedSyllable]
  | openSyllable, k | vowelJamo, k => k ∈ [vowelJamo, trailingJamo]
  | closedSyllable, k | trailingJamo, k => k = trailingJamo
  | _, _ => false

end JoinClass

namespace ClusterEnd

/-- Whether a character of class `k` joins the cluster. -/
def joins (e : ClusterEnd) (k : JoinClass) : Bool :=
  if e.last = .carriageReturn && k = .lineFeed then true
  else if e.last.isControl || k.isControl then false
  else
    k.attaches || e.last = .prepended || JoinClass.syllableJoins e.last k ||
      (k = .regional && e.oddRegional) ||
      (k = .pictograph && e.pictograph = .ready) ||
      (k = .consonant && e.conjunct = .ready)

/-- The pictographic run with one more character. -/
def nextPictograph (r : Link) : JoinClass → Link
  | .pictograph => .begun
  | .extending | .linker | .nonJoiner => if r = .begun then .begun else .absent
  | .joiner => if r = .begun then .ready else .absent
  | _ => .absent

/-- The conjunct with one more character. -/
def nextConjunct (r : Link) : JoinClass → Link
  | .consonant => .begun
  | .extending | .joiner => r
  | .linker => if r = .absent then .absent else .ready
  | _ => .absent

/-- What a text ends with behind one more character. -/
def next (e : ClusterEnd) (k : JoinClass) : ClusterEnd where
  last := k
  oddRegional := k = .regional && !e.oddRegional
  pictograph := nextPictograph e.pictograph k
  conjunct := nextConjunct e.conjunct k

/-- What a text of one character ends with. -/
def first (k : JoinClass) : ClusterEnd := next { last := .other } k

end ClusterEnd

/-- The clusters of a text behind the unfinished cluster `cur`, which ends with `e` and whose
characters stand in reverse order. -/
def clustersFrom (e : ClusterEnd) (cur : List Char) : List Char → List (List Char)
  | [] => [cur.reverse]
  | c :: cs =>
    let k := JoinClass.ofChar c
    if e.joins k then clustersFrom (e.next k) (c :: cur) cs
    else cur.reverse :: clustersFrom (e.next k) [c] cs

/-- The clusters of a text. -/
def clusters : List Char → List (List Char)
  | [] => []
  | c :: cs => clustersFrom (.first (JoinClass.ofChar c)) [c] cs

theorem flatten_clustersFrom (e : ClusterEnd) (cur cs : List Char) :
    (clustersFrom e cur cs).flatten = cur.reverse ++ cs := by
  induction cs generalizing e cur with
  | nil => simp [clustersFrom]
  | cons c cs ih =>
    simp only [clustersFrom]
    split <;> simp [ih]

/-- The clusters, one behind the other, are the text. -/
theorem flatten_clusters (cs : List Char) : (clusters cs).flatten = cs := by
  cases cs with
  | nil => rfl
  | cons c cs => simp [clusters, flatten_clustersFrom]

end GoRepl.Text
