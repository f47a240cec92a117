import GoRepl.Proofs.Fragment.Nesting
import GoRepl.Proofs.Syntax.Quiet
import GoRepl.Proofs.Syntax.Statement
import GoRepl.Proofs.Token.Depths

/-! # The names that a fragment sets stand outside all brackets

The tokens of a statement tell without any grammar which names it declares and which it assigns.

* `TopLevel.assignment?`: the targets in front of an assignment outside all brackets.
* `TopLevel.valueNames`: the names in front of each line of a declaration.
* `TopLevel.names`: the names that the tokens of a statement declare and assign.
* `TopLevel.assignment?_of_without`, `TopLevel.targets_of_listed`: the targets of an assignment.
* `TopLevel.lines_append_cons`, `TopLevel.lines_append_last`: the lines of a group one after the
  other.
-/

namespace GoRepl

open Syntax Read Grammar

namespace TopLevel

/-- Whether a kind stands outside all brackets and has the property. -/
def outside (p : Kind → Bool) (m : Kind × Int) : Bool := m.2 == 0 && p m.1

def isAssignment (k : Kind) : Bool := (assignOp? k).isSome

/-- The kinds cut at the commas outside all brackets. -/
def targets (marked : List (Kind × Int)) : List (List Kind) :=
  (marked.splitOnP (outside (· == .symbol .comma))).map (·.map Prod.fst)

/-- The targets in front of the first assignment operator outside all brackets, and the operator.
None where a colon outside all brackets comes first. -/
def assignment? (ks : List Kind) : Option (List (List Kind) × AssignOp) :=
  let marked := depths 0 ks
  let front := marked.takeWhile (!outside isAssignment ·)
  match marked.dropWhile (!outside isAssignment ·) with
  | [] => none
  | (k, _) :: _ =>
    if front.any (outside (· == .symbol .colon)) then none
    else (assignOp? k).map fun op => (targets front, op)

/-- The name that a target consists of. -/
def targetName? : List Kind → Option String
  | [.name n] => if n = "_" then none else some n
  | _ => none

/-- Names separated by commas. -/
def leadingNames : List Kind → List String
  | .name n :: .symbol .comma :: ks => n :: leadingNames ks
  | .name n :: _ => [n]
  | _ => []

/-- Whether a kind is a semicolon in a group, and in no other brackets. -/
def endsLine (m : Kind × Int) : Bool := m.2 == 1 && m.1.isSemicolon

/-- The lines of a group in parentheses, behind its opening one. -/
def lines (ks : List Kind) : List (List Kind) :=
  ((depths 1 ks).splitOnP endsLine).map (·.map Prod.fst)

/-- The names that a declaration of values declares, behind its keyword. -/
def valueNames : List Kind → List String
  | .symbol .lparen :: ks => (lines ks).flatMap leadingNames
  | ks => leadingNames ks

/-- The keywords of statements that set no names. -/
def setsNone : Keyword → Bool
  | .typeKw | .ifKw | .forKw | .switchKw | .selectKw | .goKw | .deferKw | .returnKw | .breakKw
  | .continueKw | .gotoKw => true
  | _ => false

/-- The names that the kinds of a statement declare, and those that they assign. -/
def names (ks : List Kind) : List String × List String :=
  match ks.head? with
  | some (.keyword .varKw) | some (.keyword .constKw) =>
    ((valueNames ks.tail).filter (· ≠ "_"), [])
  | some (.keyword w) => if setsNone w then ([], []) else assigned
  | _ => assigned
where
  assigned : List String × List String :=
    match assignment? ks with
    | some (targets, .define) => (targets.filterMap targetName?, [])
    | some (targets, _) => ([], targets.filterMap targetName?)
    | none => ([], [])

/-! ## Assignments -/

variable {ks : List Kind} {k : Kind}

theorem outside_eq_false {p : Kind → Bool} (h : Without p ks) :
    ∀ m ∈ depths 0 ks, outside p m = false := by
  intro m hm
  cases hd : m.2 == 0 with
  | false => simp [outside, hd]
  | true => simp [outside, h.2 m hm (eq_of_beq hd)]

theorem assignment?_eq_none (h : Without isAssignment ks) : assignment? ks = none := by
  have hdrop : (depths 0 ks).dropWhile (!outside isAssignment ·) = [] :=
    List.dropWhile_eq_nil_iff.mpr fun m hm => by rw [outside_eq_false h m hm, Bool.not_false]
  rw [assignment?, hdrop]

/-- A colon outside all brackets in front of all else. -/
theorem assignment?_label (n : String) (ks : List Kind) :
    assignment? (.name n :: .symbol .colon :: ks) = none := by
  unfold assignment?
  simp only
  split
  · rfl
  · exact if_pos rfl

/-- The first assignment operator outside all brackets. -/
theorem assignment?_of_without (hassign : Without isAssignment ks)
    (hcolon : Without (· == .symbol .colon) ks) {op : AssignOp} (hop : assignOp? k = some op)
    (rest : List Kind) : assignment? (ks ++ k :: rest) = some (targets (depths 0 ks), op) := by
  have hfront : ∀ m ∈ depths 0 ks, (!outside isAssignment m) = true := fun m hm => by
    rw [outside_eq_false hassign m hm, Bool.not_false]
  have hk : ¬(!outside isAssignment (k, 0)) = true := by
    simp [outside, isAssignment, hop]
  have hany : (depths 0 ks).any (outside (· == .symbol .colon)) = false :=
    List.any_eq_false.mpr fun m hm => by simp [outside_eq_false hcolon m hm]
  have hdepths : depths 0 (ks ++ k :: rest) =
      depths 0 ks ++ (k, 0) :: depths (0 + k.depth) rest := hassign.1.depths_append 0 _
  have hdrop : (depths 0 (ks ++ k :: rest)).dropWhile (!outside isAssignment ·) =
      (k, 0) :: depths (0 + k.depth) rest := by
    rw [hdepths, List.dropWhile_append_of_pos hfront]
    exact List.dropWhile_cons_of_neg hk
  have htake : (depths 0 (ks ++ k :: rest)).takeWhile (!outside isAssignment ·) =
      depths 0 ks := by
    rw [hdepths, List.takeWhile_append_of_pos hfront]
    exact List.append_right_eq_self.mpr (List.takeWhile_cons_of_neg hk)
  unfold assignment?
  simp only [hdrop, htake, hany, hop]
  rfl

theorem targetName?_of_spells {x : Expr} (h : Spells ks x) :
    (targetName? ks).toList = Shape.targetNames [x] := by
  obtain ⟨n, rfl, rfl⟩ | ⟨hx, k, hk, hname⟩ := h
  · by_cases hn : n = "_" <;> simp [targetName?, Shape.targetNames, hn]
  · have hnone : targetName? ks = none := by
      unfold targetName?
      split
      · exact absurd (List.mem_singleton.mp hk) (hname _)
      · rfl
    have hother : Shape.targetNames [x] = [] := by
      cases x with
      | name n => exact absurd rfl (hx n)
      | _ => rfl
    rw [hnone, hother, Option.toList_none]

theorem targets_quiet (h : Without (· == .symbol .comma) ks) : targets (depths 0 ks) = [ks] := by
  rw [targets, List.splitOnP_eq_singleton (outside_eq_false h), List.map_singleton, map_fst_depths]

/-- The targets of an assignment are its expressions, and those that are names are spelled by one
token. -/
theorem targets_of_listed {xs : List Expr} (h : Listed ks xs) :
    (targets (depths 0 ks)).filterMap targetName? = Shape.targetNames xs := by
  have hcomma : ∀ {ks}, Quiet ks → Without (· == .symbol .comma) ks := fun quiet =>
    quiet.without.mono fun k hk => by simp [Kind.separates, eq_of_beq hk]
  have hcons : ∀ ks kss, (ks :: kss).filterMap targetName? =
      (targetName? ks).toList ++ kss.filterMap targetName? := fun ks kss => by
    rw [List.filterMap_cons]
    cases targetName? ks <;> rfl
  induction h with
  | one quiet spells =>
    rw [targets_quiet (hcomma quiet), hcons, targetName?_of_spells spells]
    exact List.append_nil _
  | @cons ks ks' x xs quiet spells rest ih =>
    have hfront := outside_eq_false (hcomma quiet)
    have hmark : outside (· == .symbol .comma) (.symbol .comma, 0) = true := rfl
    have htargets : targets (depths 0 (ks ++ .symbol .comma :: ks')) =
        ks :: targets (depths 0 ks') := by
      rw [targets, quiet.nested.depths_append, depths,
        List.splitOnP_append_cons_of_forall_mem hfront _ hmark, List.map_cons, map_fst_depths]
      rfl
    rw [htargets, hcons, targetName?_of_spells spells, ih, Shape.targetNames, Shape.targetNames,
      ← List.filterMap_append]
    rfl

theorem names_eq_assigned (hvalue : ∀ kw : ValueKeyword, ks.head? ≠ some (.keyword kw.word))
    (hsets : ∀ w, ks.head? = some (.keyword w) → setsNone w = false) :
    names ks = names.assigned ks := by
  unfold names
  split
  · exact absurd ‹_› (hvalue .var)
  · exact absurd ‹_› (hvalue .const)
  · rename_i w _ _ hw
    rw [hsets w hw]
    rfl
  · rfl

theorem names_of_setsNone {w : Keyword} (hw : ks.head? = some (.keyword w))
    (hsets : setsNone w = true) : names ks = ([], []) := by
  unfold names
  rw [hw]
  cases w <;> first | rfl | cases hsets

theorem names_of_without (hks : Without isAssignment ks) : names.assigned ks = ([], []) := by
  rw [names.assigned, assignment?_eq_none hks]

/-! ## Declarations of values -/

/-- The kinds of names with commas between them. -/
def spelled (ns : List String) : List Kind := (ns.map .name).intersperse (.symbol .comma)

theorem leadingNames_spelled {ns : List String} (hns : ns ≠ [])
    (hks : ks.head? ≠ some (.symbol .comma)) : leadingNames (spelled ns ++ ks) = ns := by
  induction ns with
  | nil => exact absurd rfl hns
  | cons n ns ih =>
    cases ns with
    | nil => exact leadingNames.eq_2 n ks fun ks' h => hks (h ▸ rfl)
    | cons m ns =>
      have htail := ih nofun
      change n :: leadingNames (spelled (m :: ns) ++ ks) = _
      rw [htail]

theorem endsLine_eq_false {line : List Kind} (h : Without Kind.isSemicolon line) :
    ∀ m ∈ depths 1 line, endsLine m = false := by
  intro m hm
  cases hd : m.2 == 1 with
  | false => simp [endsLine, hd]
  | true => simp [endsLine, h.at_depth 1 m hm (eq_of_beq hd)]

/-- The line in front of a semicolon. -/
theorem lines_append_cons {line : List Kind} (h : Without Kind.isSemicolon line)
    (hk : k.isSemicolon = true) : lines (line ++ k :: ks) = line :: lines ks := by
  have hmark : endsLine (k, 1) = true := hk
  rw [lines, h.1.depths_append, depths, depth_of_isSemicolon hk, Int.add_zero,
    List.splitOnP_append_cons_of_forall_mem (endsLine_eq_false h) _ hmark, List.map_cons,
    map_fst_depths]
  rfl

/-- The last line, with all that stands behind the group. -/
theorem lines_append_last {line : List Kind} (h : Without Kind.isSemicolon line)
    (hks : ∀ k ∈ ks, k.isSemicolon = true) :
    lines (line ++ .symbol .rparen :: ks) = [line ++ .symbol .rparen :: ks] := by
  have hbehind : ∀ m ∈ depths 0 ks, endsLine m = false := fun m hm => by
    simp [endsLine, eq_of_mem_depths (fun k hk => depth_of_isSemicolon (hks k hk)) 0 m hm]
  have hall : ∀ m ∈ depths 1 (line ++ .symbol .rparen :: ks), endsLine m = false := by
    rw [h.1.depths_append]
    refine List.forall_mem_append.mpr ⟨endsLine_eq_false h, ?_⟩
    exact List.forall_mem_cons.mpr ⟨rfl, hbehind⟩
  rw [lines, List.splitOnP_eq_singleton hall, List.map_singleton, map_fst_depths]

end TopLevel

end GoRepl
