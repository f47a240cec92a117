import GoRepl.Fragment.Framing
import Mathlib.Algebra.Ring.Int.Defs

/-! # Nested brackets

Token kinds are nested if each opening bracket is closed behind it by a bracket of its own sort,
with nested kinds between the two, and no other bracket closes anything.

* `Bracket`, `Nested`: the sorts of brackets, and nested kinds.
* `Nested.depth_eq_zero`: nested kinds open as many brackets as they close.
* `Closes`: kinds that close brackets opened before them, the last one first.
-/

namespace GoRepl

/-- The sorts of brackets. -/
inductive Bracket where
  | paren | square | brace
  deriving Repr, DecidableEq, Inhabited

namespace Bracket

def opening : Bracket → Symbol
  | paren => .lparen
  | square => .lbrack
  | brace => .lbrace

def closing : Bracket → Symbol
  | paren => .rparen
  | square => .rbrack
  | brace => .rbrace

theorem depth_opening (b : Bracket) : (Kind.symbol b.opening).depth = 1 := by cases b <;> rfl

theorem depth_closing (b : Bracket) : (Kind.symbol b.closing).depth = -1 := by cases b <;> rfl

end Bracket

/-- Each bracket is closed by one of its own sort, and what is between them is nested, too.  Kinds
of depth 0 are no brackets. -/
inductive Nested : List Kind → Prop
  | nil : Nested []
  | other {k : Kind} {ks : List Kind} (plain : k.depth = 0) (rest : Nested ks) : Nested (k :: ks)
  | pair (b : Bracket) {inner ks : List Kind} (between : Nested inner) (rest : Nested ks) :
      Nested (.symbol b.opening :: (inner ++ .symbol b.closing :: ks))

namespace Nested

variable {ks ks' : List Kind}

theorem append (h : Nested ks) (h' : Nested ks') : Nested (ks ++ ks') := by
  induction h with
  | nil => exact h'
  | other plain _ ih => exact .other plain ih
  | pair b between _ _ ih =>
    rw [List.cons_append, List.append_assoc, List.cons_append]
    exact .pair b between ih

theorem depth_eq_zero (h : Nested ks) : (ks.map Kind.depth).sum = 0 := by
  induction h with
  | nil => rfl
  | other plain _ ih => rw [List.map_cons, List.sum_cons, plain, ih, Int.add_zero]
  | pair b _ _ ihi ihr =>
    simp only [List.map_cons, List.map_append, List.sum_cons, List.sum_append, ihi, ihr,
      b.depth_opening, b.depth_closing]
    rfl

end Nested

theorem Framing.depth_eq_sum (ts : List Token) :
    Framing.depth ts = (ts.map fun t => t.kind.depth).sum := by
  induction ts with
  | nil => rfl
  | cons t ts ih =>
    rw [List.map_cons, List.sum_cons, ← ih]
    rfl

/-- The kinds close the open brackets `open`, the first one first, and are nested apart from
that. -/
def Closes : List Bracket → List Kind → Prop
  | [], ks => Nested ks
  | b :: outer, ks => ∃ inner rest, ks = inner ++ .symbol b.closing :: rest ∧ Nested inner ∧
      Closes outer rest

namespace Closes

variable {bs : List Bracket} {b : Bracket} {k : Kind} {ks ks' : List Kind}

theorem append (h : Nested ks) (h' : Closes bs ks') : Closes bs (ks ++ ks') := by
  cases bs with
  | nil => exact h.append h'
  | cons b outer =>
    obtain ⟨inner, rest, rfl, hi, hr⟩ := h'
    exact ⟨ks ++ inner, rest, (List.append_assoc ..).symm, h.append hi, hr⟩

theorem other (hk : k.depth = 0) (h : Closes bs ks) : Closes bs (k :: ks) :=
  append (.other hk .nil) h

/-- A bracket is opened behind which the kinds close it and those before it. -/
theorem opening (h : Closes (b :: bs) ks) : Closes bs (.symbol b.opening :: ks) := by
  obtain ⟨inner, rest, rfl, hi, hr⟩ := h
  have hpair : Nested (.symbol b.opening :: (inner ++ .symbol b.closing :: [])) := .pair b hi .nil
  have happ := append hpair hr
  rwa [List.cons_append, List.append_assoc] at happ

theorem closing (h : Closes bs ks) : Closes (b :: bs) (.symbol b.closing :: ks) :=
  ⟨[], ks, rfl, .nil, h⟩

end Closes

end GoRepl
