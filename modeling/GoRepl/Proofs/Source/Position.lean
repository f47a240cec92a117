import GoRepl.Source.Position
import Mathlib.Data.List.DropRight
import Mathlib.Data.String.Basic

/-! # Where a text ends

* `Position.offset_after`, `Position.line_after`, `Position.col_after`: the place behind a text,
  counted in the text.
* `Position.shift`, `Position.after_shift`: reading a text from a place on a later line.
* `Span.shift`: a span of such a text.
-/

namespace GoRepl

namespace Position

theorem offset_after (p : Position) (cs : List Char) :
    (p.after cs).offset = p.offset + String.utf8Len cs := by
  induction cs generalizing p with
  | nil => rfl
  | cons c cs ih =>
    have hnext : (p.next c).offset = p.offset + c.utf8Size := by
      unfold next
      split <;> rfl
    rw [after_cons, ih, hnext, String.utf8Len_cons]
    omega

theorem line_after (p : Position) (cs : List Char) :
    (p.after cs).line = p.line + cs.count '\n' := by
  induction cs generalizing p with
  | nil => rfl
  | cons c cs ih =>
    rw [after_cons, ih, List.count_cons, next]
    by_cases hc : c = '\n'
    · simp only [if_pos hc, beq_iff_eq]
      omega
    · simp only [if_neg hc, beq_iff_eq]
      omega

/-- The column counts the characters behind the last line end. -/
theorem col_after (cs : List Char) :
    (after {} cs).col = 1 + (cs.rtakeWhile (· ≠ '\n')).length := by
  induction cs using List.reverseRecOn with
  | nil => rfl
  | append_singleton cs c ih =>
    rw [after_append, after_cons, after_nil, next]
    by_cases hc : c = '\n'
    · rw [if_pos hc, List.rtakeWhile_concat_neg _ _ _ (by simpa using hc)]
      rfl
    · rw [if_neg hc, List.rtakeWhile_concat_pos _ _ _ (by simpa using hc), List.length_append, ih]
      rfl

/-! ## Later lines -/

/-- The place some bytes and lines further on, in the same column. -/
def shift (bytes lines : Nat) (p : Position) : Position where
  offset := p.offset + bytes
  line := p.line + lines
  col := p.col

variable {bytes lines : Nat}

theorem next_shift (p : Position) (c : Char) :
    (p.shift bytes lines).next c = (p.next c).shift bytes lines := by
  unfold next shift
  split
  · simp only [mk.injEq, and_true]
    omega
  · simp only [mk.injEq, and_true]
    omega

theorem after_shift (p : Position) (cs : List Char) :
    (p.shift bytes lines).after cs = (p.after cs).shift bytes lines := by
  induction cs generalizing p with
  | nil => rfl
  | cons c cs ih => rw [after_cons, after_cons, next_shift, ih]

/-- Behind a line end a line starts. -/
theorem after_line (cs : List Char) : after {} (cs ++ ['\n']) =
    shift (String.utf8Len cs + 1) (1 + cs.count '\n') {} := by
  rw [after_append, after_cons, after_nil, next, if_pos rfl, offset_after, line_after, shift,
    mk.injEq]
  refine ⟨?_, ?_, rfl⟩
  · change 0 + String.utf8Len cs + 1 = 0 + (String.utf8Len cs + 1)
    omega
  · change 1 + cs.count '\n' + 1 = 1 + (1 + cs.count '\n')
    omega

end Position

namespace Span

/-- The span some bytes and lines further on, in the same column. -/
def shift (bytes lines : Nat) (s : Span) : Span where
  start := s.start + bytes
  stop := s.stop + bytes
  line := s.line + lines
  col := s.col

variable {bytes lines : Nat}

theorem reading_shift (p : Position) (cs : List Char) :
    reading (p.shift bytes lines) cs = (reading p cs).shift bytes lines := by
  rw [reading, Position.after_shift]
  rfl

end Span

end GoRepl
