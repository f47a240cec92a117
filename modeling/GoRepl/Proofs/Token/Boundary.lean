import GoRepl.Proofs.Text.Trim
import GoRepl.Proofs.Token.Kinds

/-! # Where a token ends at the latest

No number, word or symbol goes on with a blank character or a closing parenthesis.  So what is read
in front of one does not depend on it.

* `Boundary`: such a character with what follows it, or the end of the source.
* `Piece.first_unexpected`: a character that opens no token is a fault.
* `Number.read_append`, `Symbol.read?_append`: what is read in front of a boundary.
* `Number.read_front`, `Symbol.read?_front`: what is read stands at the front of the source.
-/

namespace GoRepl

/-- No blank character and no closing parenthesis stands in a word. -/
theorem Number.isWordChar_inert :
    ((')' :: Text.blanks).all fun c => !isWordChar c) = true := by decide +kernel

/-! ## Characters that open no token -/

namespace Piece

theorem isWordChar_of_startsWord {c : Char} (h : startsWord c = true) :
    Number.isWordChar c = true := by
  rw [startsWord, Bool.or_eq_true] at h
  rw [Number.isWordChar, Bool.or_eq_true]
  exact h.imp_left Text.isLetterOrNumeral_of_isLetter

/-- Whether some token begins with `c`. -/
def opensToken (c : Char) : Bool :=
  c.isDigit || startsWord c || ['"', '\'', '\x60'].contains c ||
    Symbol.longestFirst.any (·.chars.head? == some c)

theorem opensToken_blank {c : Char} (h : Text.isBlank c = true) : opensToken c = false := by
  have hmem := Text.mem_blanks h
  have hstarts : startsWord c = false := by
    have hword := List.all_eq_true.mp Number.isWordChar_inert c (.tail _ hmem)
    rw [Bool.not_eq_true'] at hword
    exact Bool.eq_false_iff.mpr fun hs => Bool.false_ne_true
      (hword.symm.trans (isWordChar_of_startsWord hs))
  have hall : (Text.blanks.all fun c => !(c.isDigit || ['"', '\'', '\x60'].contains c ||
      Symbol.longestFirst.any (·.chars.head? == some c))) = true := by decide +kernel
  have hother := List.all_eq_true.mp hall c hmem
  rw [opensToken, hstarts, Bool.or_false]
  rwa [Bool.not_eq_true'] at hother

variable {c : Char} {r : List Char}

theorem read?_eq_none (h : Symbol.longestFirst.any (·.chars.head? == some c) = false) :
    Symbol.read? (c :: r) = none := by
  refine List.find?_eq_none.mpr fun s hs hp => ?_
  have hhead := List.any_eq_false.mp h s hs
  have hne : s.chars ≠ [] := by
    have hall : (Symbol.longestFirst.all fun s => !s.chars.isEmpty) = true := by decide
    simpa using List.all_eq_true.mp hall s hs
  obtain ⟨d, ds, hd⟩ := List.exists_cons_of_ne_nil hne
  rw [hd, List.isPrefixOf, Bool.and_eq_true, beq_iff_eq] at hp
  rw [hd, hp.1] at hhead
  exact hhead (beq_self_eq_true _)

/-- A character that opens no token and is neither space nor line end is a fault. -/
theorem first_unexpected (h : opensToken c = false) (hn : c ≠ '\n')
    (hb : ¬(c = ' ' ∨ c = '\t' ∨ c = '\r')) : first c r = .error (.unexpectedChar c) := by
  have hne : ∀ d, opensToken d = true → c ≠ d := by
    rintro d hd rfl
    rw [h] at hd
    cases hd
  have hslash : c ≠ '/' := hne _ (by decide)
  have hpoint : c ≠ '.' := hne _ (by decide)
  simp only [opensToken, Bool.or_eq_false_iff] at h
  obtain ⟨⟨⟨hdigit, hword⟩, -⟩, hsymbol⟩ := h
  have hnumber : ¬startsNumber c r = true := by simp [startsNumber, hdigit, hpoint]
  unfold first
  rw [if_neg hn, if_neg hb, if_neg fun h => hslash h.1, if_neg fun h => hslash h.1,
    if_neg (hne _ (by decide)), if_neg (hne _ (by decide)), if_neg (hne _ (by decide)),
    if_neg hnumber, if_neg (by rw [hword]; exact Bool.false_ne_true), read?_eq_none hsymbol]

end Piece

/-! ## Characters that no token goes on with -/

/-- A blank character or a closing parenthesis. -/
def isInert (c : Char) : Bool := Text.isBlank c || c == ')'

theorem eq_false_of_inert (f : Char → Bool)
    (hf : ((')' :: Text.blanks).all fun c => !f c) = true) {c : Char} (h : isInert c = true) :
    f c = false := by
  have hmem : c ∈ ')' :: Text.blanks := by
    rcases Bool.or_eq_true_iff.mp h with h | h
    · exact .tail _ (Text.mem_blanks h)
    · exact eq_of_beq h ▸ .head _
  simpa using List.all_eq_true.mp hf c hmem

/-- A character that no token goes on with, and what follows it; or the end of the source. -/
inductive Boundary : List Char → Prop
  | finish : Boundary []
  | inert {c : Char} (h : isInert c = true) (r : List Char) : Boundary (c :: r)

namespace Boundary

variable {x y : List Char}

theorem takeWhile_append (hy : Boundary y) {f : Char → Bool}
    (hf : ((')' :: Text.blanks).all fun c => !f c) = true) :
    (x ++ y).takeWhile f = x.takeWhile f := by
  induction x with
  | nil =>
    cases hy with
    | finish => rfl
    | inert h r =>
      rw [List.nil_append, List.takeWhile_cons, eq_false_of_inert f hf h]
      rfl
  | cons c x ih => rw [List.cons_append, List.takeWhile_cons, List.takeWhile_cons, ih]

theorem head?_append (hy : Boundary y) {c : Char} (hc : isInert c = false) :
    (x ++ y).head? = some c ↔ x.head? = some c := by
  cases x with
  | cons d x => rfl
  | nil =>
    cases hy with
    | finish => rfl
    | @inert d h r =>
      simp only [List.nil_append, List.head?_cons, List.head?_nil, Option.some.injEq, reduceCtorEq,
        iff_false]
      rintro rfl
      rw [hc] at h
      cases h

end Boundary

namespace Number

variable {x y : List Char}

theorem startsWithDigit_append (hy : Boundary y) :
    startsWithDigit (x ++ y) = startsWithDigit x := by
  cases x with
  | cons d x => rfl
  | nil =>
    cases hy with
    | finish => rfl
    | inert h r => exact eq_false_of_inert Char.isDigit (by decide +kernel) h

section Mantissa

variable {b : Base} {fractional : Bool} {c : Char} {r : List Char}

/-- The digits of a mantissa; in base sixteen letters are among them. -/
def isMantissaDigit (b : Base) (c : Char) : Bool :=
  c.isDigit || c == '_' || (b.hex && isHexDigit c)

theorem mantissa_digit (h : isMantissaDigit b c = true) :
    mantissa b fractional (c :: r) = mantissa.extend [c] (mantissa b fractional r) := by
  rw [mantissa.eq_def]
  exact if_pos h

theorem mantissa_point (hd : ¬isMantissaDigit b c = true)
    (h : (c == '.' && !fractional && b.point) = true) :
    mantissa b fractional (c :: r) = mantissa.extend [c] (mantissa b true r) := by
  rw [mantissa.eq_def]
  exact (if_neg hd).trans (if_pos h)

theorem mantissa_mark (hd : ¬isMantissaDigit b c = true)
    (hp : ¬(c == '.' && !fractional && b.point) = true) (h : b.isExponentMark c = true) :
    mantissa b fractional (c :: r) =
      match r with
      | [] => .error [c]
      | s :: r' =>
        if s == '+' || s == '-' then
          if startsWithDigit r' then mantissa.extend [c, s] (mantissa b true r') else .error [c, s]
        else if s.isDigit then mantissa.extend [c] (mantissa b true (s :: r')) else .error [c] := by
  rw [mantissa.eq_def]
  exact (if_neg hd).trans ((if_neg hp).trans (if_pos h))

theorem mantissa_stop (hd : ¬isMantissaDigit b c = true)
    (hp : ¬(c == '.' && !fractional && b.point) = true) (h : ¬b.isExponentMark c = true) :
    mantissa b fractional (c :: r) = .ok ([], fractional) := by
  rw [mantissa.eq_def]
  exact (if_neg hd).trans ((if_neg hp).trans (if_neg h))

theorem mantissa_boundary (hy : Boundary y) : mantissa b fractional y = .ok ([], fractional) := by
  cases hy with
  | finish => rw [mantissa]
  | @inert c h r =>
    have hdigit : isMantissaDigit b c = false := by
      obtain ⟨hex, point⟩ := b
      cases hex
      · exact eq_false_of_inert (fun d => d.isDigit || d == '_' || false) (by decide +kernel) h
      · exact eq_false_of_inert (fun d => d.isDigit || d == '_' || isHexDigit d)
          (by decide +kernel) h
    have hpoint : (c == '.') = false := eq_false_of_inert (· == '.') (by decide +kernel) h
    have hmark : b.isExponentMark c = false := by
      obtain ⟨hex, point⟩ := b
      cases hex
      · exact eq_false_of_inert (fun d => d == 'e' || d == 'E') (by decide +kernel) h
      · exact eq_false_of_inert (fun d => d == 'p' || d == 'P') (by decide +kernel) h
    exact mantissa_stop (by simp [hdigit]) (by simp [hpoint]) (by simp [hmark])

theorem mantissa_append (hy : Boundary y) :
    mantissa b fractional (x ++ y) = mantissa b fractional x := by
  induction fractional, x using mantissa.induct b with
  | case1 => rw [List.nil_append, mantissa_boundary hy, mantissa]
  | case2 fractional c r hd ih => rw [List.cons_append, mantissa_digit hd, mantissa_digit hd, ih]
  | case3 fractional c r hd hp ih =>
    rw [List.cons_append, mantissa_point hd hp, mantissa_point hd hp, ih]
  | case4 fractional c hd hp hm =>
    rw [List.singleton_append, mantissa_mark hd hp hm, mantissa_mark hd hp hm]
    cases hy with
    | finish => rfl
    | @inert s h r =>
      have hsign : (s == '+' || s == '-') = false :=
        eq_false_of_inert (fun d => d == '+' || d == '-') (by decide +kernel) h
      have hdigit : s.isDigit = false := eq_false_of_inert Char.isDigit (by decide +kernel) h
      simp [hsign, hdigit]
  | case5 fractional c hd hp hm s r hs hstart ih =>
    rw [List.cons_append, List.cons_append, mantissa_mark hd hp hm, mantissa_mark hd hp hm]
    simp only [if_pos hs, startsWithDigit_append hy, ih]
  | case6 fractional c hd hp hm s r hs hstart =>
    rw [List.cons_append, List.cons_append, mantissa_mark hd hp hm, mantissa_mark hd hp hm]
    simp only [if_pos hs, startsWithDigit_append hy, if_neg hstart]
  | case7 fractional c hd hp hm s r hs hdigit ih =>
    rw [List.cons_append, List.cons_append, mantissa_mark hd hp hm, mantissa_mark hd hp hm]
    simp only [if_neg hs, if_pos hdigit]
    rw [← List.cons_append, ih]
  | case8 fractional c hd hp hm s r hs hdigit =>
    rw [List.cons_append, List.cons_append, mantissa_mark hd hp hm, mantissa_mark hd hp hm]
    simp only [if_neg hs, if_neg hdigit]
  | case9 fractional c r hd hp hm =>
    rw [List.cons_append, mantissa_stop hd hp hm, mantissa_stop hd hp hm]

theorem extend_eq_ok {cs t : List Char} {m : Except (List Char) (List Char × Bool)} {f : Bool} :
    mantissa.extend cs m = .ok (t, f) ↔ ∃ t', m = .ok (t', f) ∧ t = cs ++ t' := by
  cases m with
  | error e => simp [mantissa.extend]
  | ok p =>
    obtain ⟨t', f'⟩ := p
    simp only [mantissa.extend, Except.ok.injEq, Prod.mk.injEq]
    constructor
    · rintro ⟨rfl, rfl⟩
      exact ⟨t', ⟨rfl, rfl⟩, rfl⟩
    · rintro ⟨_, ⟨rfl, rfl⟩, rfl⟩
      exact ⟨rfl, rfl⟩

theorem mantissa_front {cs t : List Char} {f : Bool} (h : mantissa b fractional cs = .ok (t, f)) :
    t <+: cs := by
  induction fractional, cs using mantissa.induct b generalizing t with
  | case1 =>
    rw [mantissa] at h
    cases h
    exact List.prefix_refl _
  | case2 fractional c r hd ih =>
    rw [mantissa_digit hd] at h
    obtain ⟨t', ht, rfl⟩ := extend_eq_ok.mp h
    exact List.cons_prefix_cons.mpr ⟨rfl, ih ht⟩
  | case3 fractional c r hd hp ih =>
    rw [mantissa_point hd hp] at h
    obtain ⟨t', ht, rfl⟩ := extend_eq_ok.mp h
    exact List.cons_prefix_cons.mpr ⟨rfl, ih ht⟩
  | case4 fractional c hd hp hm =>
    rw [mantissa_mark hd hp hm] at h
    cases h
  | case5 fractional c hd hp hm s r hs hstart ih =>
    rw [mantissa_mark hd hp hm] at h
    simp only [if_pos hs, if_pos hstart] at h
    obtain ⟨t', ht, rfl⟩ := extend_eq_ok.mp h
    exact List.cons_prefix_cons.mpr ⟨rfl, List.cons_prefix_cons.mpr ⟨rfl, ih ht⟩⟩
  | case6 fractional c hd hp hm s r hs hstart =>
    rw [mantissa_mark hd hp hm] at h
    simp only [if_pos hs, if_neg hstart] at h
    cases h
  | case7 fractional c hd hp hm s r hs hdigit ih =>
    rw [mantissa_mark hd hp hm] at h
    simp only [if_neg hs, if_pos hdigit] at h
    obtain ⟨t', ht, rfl⟩ := extend_eq_ok.mp h
    exact List.cons_prefix_cons.mpr ⟨rfl, ih ht⟩
  | case8 fractional c hd hp hm s r hs hdigit =>
    rw [mantissa_mark hd hp hm] at h
    simp only [if_neg hs, if_neg hdigit] at h
    cases h
  | case9 fractional c r hd hp hm =>
    rw [mantissa_stop hd hp hm] at h
    cases h
    exact List.nil_prefix

end Mantissa

theorem baseMark_append (hy : Boundary y) : baseMark (x ++ y) = baseMark x := by
  have hnil : ∀ {z}, Boundary z → baseMark z = baseMark [] := by
    intro z hz
    cases hz with
    | finish => rfl
    | @inert c h r =>
      have hc : (c == '0') = false := eq_false_of_inert (· == '0') (by decide +kernel) h
      have hne : c ≠ '0' := by simpa using hc
      unfold baseMark
      split
      · rename_i heq
        exact absurd (List.cons.inj heq).1 hne
      · rfl
  cases x with
  | nil => exact hnil hy
  | cons c x =>
    cases x with
    | cons m x =>
      rw [List.cons_append, List.cons_append]
      unfold baseMark
      by_cases hc : c = '0'
      · subst hc
        rfl
      · simp [hc]
    | nil =>
      cases hy with
      | finish => rw [List.append_nil]
      | @inert m h r =>
        have hm : isBaseMark m = false := eq_false_of_inert isBaseMark (by decide +kernel) h
        by_cases hc : c = '0'
        · subst hc
          simp [baseMark, hm]
        · simp [baseMark, hc]

theorem baseMark_front (cs : List Char) : (baseMark cs).1 <+: cs := by
  unfold baseMark
  split
  · split
    · exact List.cons_prefix_cons.mpr ⟨rfl, List.cons_prefix_cons.mpr ⟨rfl, List.nil_prefix⟩⟩
    · exact List.nil_prefix
  · exact List.nil_prefix

/-- The digits at the front of a number, with the base mark. -/
def digits (cs : List Char) : Except (List Char) (List Char × Bool) :=
  mantissa.extend (baseMark cs).1
    (mantissa (baseMark cs).2 false (cs.drop (baseMark cs).1.length))

theorem digits_append (hy : Boundary y) : digits (x ++ y) = digits x := by
  unfold digits
  rw [baseMark_append hy, List.drop_append_of_le_length (baseMark_front x).length_le,
    mantissa_append hy]

theorem digits_front {cs t : List Char} {f : Bool} (h : digits cs = .ok (t, f)) : t <+: cs := by
  obtain ⟨t', ht, rfl⟩ := extend_eq_ok.mp h
  have hcs := List.prefix_iff_eq_append.mp (baseMark_front cs)
  obtain ⟨r, hr⟩ := mantissa_front ht
  exact ⟨r, by rw [List.append_assoc, hr, hcs]⟩

/-- The suffix of an imaginary number. -/
def suffix (rest : List Char) : List Char := if rest.head? == some 'i' then ['i'] else []

theorem suffix_front (rest : List Char) : suffix rest <+: rest := by
  unfold suffix
  split
  · rename_i h
    cases rest with
    | nil => cases h
    | cons c r =>
      rw [List.head?_cons, beq_iff_eq, Option.some.injEq] at h
      exact List.cons_prefix_cons.mpr ⟨h.symm, List.nil_prefix⟩
  · exact List.nil_prefix

/-- The number that consists of some digits, before `rest`; `bare` if it has no base mark. -/
def judge (bare : Bool) (digits : List Char) (fractional : Bool) (rest : List Char) :
    Except (List Char) (LiteralClass × List Char) :=
  let imaginary := rest.head? == some 'i'
  let tail := (rest.drop (suffix rest).length).takeWhile isWordChar
  if digits.getLast? == some '_' || (!bare && digits.length == 2) then .error digits
  else if bare && !fractional && digits.length > 1 && digits.head? == some '0'
      && digits.any (fun c => c == '8' || c == '9') && !imaginary then .error digits
  else if !tail.isEmpty then .error (digits ++ suffix rest ++ tail)
  else .ok (if imaginary then .imaginary else if fractional then .float else .int,
    digits ++ suffix rest)

theorem read_eq (cs : List Char) : read cs =
    (digits cs).bind fun p => judge (baseMark cs).1.isEmpty p.1 p.2 (cs.drop p.1.length) := by
  unfold read digits
  generalize baseMark cs = b
  obtain ⟨mark, base⟩ := b
  simp only
  cases mantissa.extend mark (mantissa base false (cs.drop mark.length)) with
  | error e => rfl
  | ok p =>
    obtain ⟨t, fractional⟩ := p
    have htext : (if (cs.drop t.length).head? == some 'i' then t ++ ['i'] else t) =
        t ++ suffix (cs.drop t.length) := by
      unfold suffix
      split
      · rfl
      · exact (List.append_nil t).symm
    simp only [bind, Except.bind, judge, htext, List.length_append, List.drop_drop]
    split
    · rfl
    split
    · rfl
    split <;> rfl

theorem read_append (hy : Boundary y) : read (x ++ y) = read x := by
  rw [read_eq, read_eq, digits_append hy, baseMark_append hy]
  cases hd : digits x with
  | error e => rfl
  | ok p =>
    obtain ⟨t, fractional⟩ := p
    have hhead : ∀ r, ((r ++ y).head? == some 'i') = (r.head? == some 'i') := fun r => by
      rw [Bool.eq_iff_iff, beq_iff_eq, beq_iff_eq]
      exact hy.head?_append (by decide)
    have hsuffix : ∀ r, suffix (r ++ y) = suffix r := fun r => by rw [suffix, suffix, hhead]
    simp only [Except.bind, judge]
    rw [List.drop_append_of_le_length (digits_front hd).length_le, hsuffix, hhead,
      List.drop_append_of_le_length (suffix_front _).length_le,
      hy.takeWhile_append isWordChar_inert]

theorem read_front {cs t : List Char} {cls : LiteralClass} (h : read cs = .ok (cls, t)) :
    t <+: cs := by
  rw [read_eq] at h
  cases hd : digits cs with
  | error e =>
    rw [hd] at h
    cases h
  | ok p =>
    obtain ⟨ds, fractional⟩ := p
    have hcs := List.prefix_iff_eq_append.mp (digits_front hd)
    rw [hd] at h
    simp only [Except.bind, judge] at h
    split at h
    · cases h
    split at h
    · cases h
    split at h
    · cases h
    cases h
    obtain ⟨r, hr⟩ := suffix_front (cs.drop ds.length)
    exact ⟨r, by rw [List.append_assoc, hr, hcs]⟩

end Number

namespace Symbol

variable {x y : List Char}

/-- Behind its first character a symbol has none that no token goes on with. -/
theorem not_inert_of_mem_tail {c : Char} {s : Symbol} (h : c ∈ s.chars.tail) :
    isInert c = false := by
  have hall : (s.chars.tail.all fun c => !isInert c) = true := by
    cases s with
    | binary op =>
      cases op with
      | arith op => cases op <;> rfl
      | _ => rfl
    | compound op => cases op <;> rfl
    | _ => rfl
  simpa using List.all_eq_true.mp hall c h

theorem isPrefixOf_append (hy : Boundary y) {ks : List Char} (hk : ∀ c ∈ ks, isInert c = false) :
    ks.isPrefixOf (x ++ y) = ks.isPrefixOf x := by
  induction ks generalizing x with
  | nil => rfl
  | cons k ks ih =>
    obtain ⟨hkc, hks⟩ := List.forall_mem_cons.mp hk
    cases x with
    | cons c x => rw [List.cons_append, List.isPrefixOf, List.isPrefixOf, ih hks]
    | nil =>
      cases hy with
      | finish => rfl
      | @inert c h r =>
        have hne : (k == c) = false := by
          rw [beq_eq_false_iff_ne]
          rintro rfl
          rw [hkc] at h
          cases h
        rw [List.nil_append, List.isPrefixOf_cons_cons, hne, Bool.false_and]
        rfl

theorem read?_append (hy : Boundary y) (c : Char) : read? (c :: (x ++ y)) = read? (c :: x) := by
  unfold read?
  congr 1
  funext s
  have htail : ∀ d ∈ s.chars.tail, isInert d = false := fun d => not_inert_of_mem_tail
  generalize s.chars = ks at htail
  cases ks with
  | nil => rfl
  | cons k ks =>
    rw [List.isPrefixOf, List.isPrefixOf]
    exact congrArg _ (isPrefixOf_append hy htail)

theorem read?_front {cs : List Char} {s : Symbol} (h : read? cs = some s) : s.chars <+: cs := by
  unfold read? at h
  simpa using List.find?_some h

end Symbol

end GoRepl
