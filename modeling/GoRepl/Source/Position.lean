/-! # Positions and spans in a source text

* `Position`: a place between two characters: bytes before it, line and column (both from 1).
* `Position.after`: the place reached from another one by reading some text.
* `Span`: a stretch of bytes together with the line and column of its start.
* `Span.merge`: the smallest stretch that covers two.
-/

namespace GoRepl

/-- A place in a source text.  Lines and columns count from 1, columns count characters. -/
structure Position where
  /-- UTF-8 bytes before the place. -/
  offset : Nat := 0
  line : Nat := 1
  col : Nat := 1
  deriving Repr, DecidableEq, Inhabited

namespace Position

/-- The place behind one more character. -/
def next (p : Position) (c : Char) : Position :=
  if c = '\n' then ⟨p.offset + c.utf8Size, p.line + 1, 1⟩
  else ⟨p.offset + c.utf8Size, p.line, p.col + 1⟩

/-- The place behind the text `cs`. -/
def after (p : Position) (cs : List Char) : Position := cs.foldl next p

@[simp] theorem after_nil (p : Position) : p.after [] = p := rfl

@[simp] theorem after_cons (p : Position) (c : Char) (cs : List Char) :
    p.after (c :: cs) = (p.next c).after cs := rfl

theorem after_append (p : Position) (cs ds : List Char) :
    p.after (cs ++ ds) = (p.after cs).after ds := List.foldl_append ..

end Position

/-- The bytes `start ≤ i < stop` of a source text, and the line and column of `start`. -/
structure Span where
  start : Nat
  stop : Nat
  line : Nat
  col : Nat
  deriving Repr, DecidableEq, Inhabited

namespace Span

/-- The empty span at a place. -/
def «at» (p : Position) : Span := ⟨p.offset, p.offset, p.line, p.col⟩

/-- The span of the text `cs` read from place `p`. -/
def reading (p : Position) (cs : List Char) : Span :=
  ⟨p.offset, (p.after cs).offset, p.line, p.col⟩

/-- The least stretch covering both spans; the column is the one of the span on the earlier line,
the left one when the lines agree. -/
def merge (s t : Span) : Span where
  start := min s.start t.start
  stop := max s.stop t.stop
  line := min s.line t.line
  col := if s.line ≤ t.line then s.col else t.col

end Span

end GoRepl
