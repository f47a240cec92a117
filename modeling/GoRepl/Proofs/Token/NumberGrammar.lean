import GoRepl.Proofs.Token.Boundary
import GoRepl.Proofs.Token.Trailing

/-! # The grammar of number literals

Every integer, floating-point and imaginary literal of the language is read as such, up to its last
character, if no letter, numeral, underscore or point follows it.

* `Number.IntLiteral`, `Number.FloatLiteral`, `Number.Literal`: the productions.
* `Number.Reads`: what a part of a literal contributes to the mantissa, whatever follows.
* `Number.Scanned`: the digits of a literal, as they are read before the end of a number.
* `Number.Literal.read`: a literal is read.
* `Number.cut_literal`: a literal is cut off as one token.
-/

namespace GoRepl.Number

/-! ## The productions -/

def isBinaryDigit (c : Char) : Bool := c == '0' || c == '1'

def isOctalDigit (c : Char) : Bool := '0' ≤ c && c ≤ '7'

/-- Digits, between which single underscores may stand. -/
inductive Digits (isDigit : Char → Bool) : List Char → Prop
  | one {c : Char} (h : isDigit c = true) : Digits isDigit [c]
  | next {c : Char} {ds : List Char} (h : isDigit c = true) (hs : Digits isDigit ds) :
      Digits isDigit (c :: ds)
  | spaced {c : Char} {ds : List Char} (h : isDigit c = true) (hs : Digits isDigit ds) :
      Digits isDigit (c :: '_' :: ds)

/-- Digits that an underscore may precede. -/
inductive Behind (isDigit : Char → Bool) : List Char → Prop
  | next {ds : List Char} (hs : Digits isDigit ds) : Behind isDigit ds
  | spaced {ds : List Char} (hs : Digits isDigit ds) : Behind isDigit ('_' :: ds)

/-- A part that may be missing. -/
inductive Optional (P : List Char → Prop) : List Char → Prop
  | absent : Optional P []
  | present {cs : List Char} (h : P cs) : Optional P cs

inductive IntLiteral : List Char → Prop
  | zero : IntLiteral ['0']
  | decimal {c : Char} {ds : List Char} (h : c.isDigit = true) (hzero : c ≠ '0')
      (hs : Optional (Behind Char.isDigit) ds) : IntLiteral (c :: ds)
  | binary {m : Char} {ds : List Char} (hm : m ∈ ['b', 'B']) (hs : Behind isBinaryDigit ds) :
      IntLiteral ('0' :: m :: ds)
  | legacyOctal {ds : List Char} (hs : Behind isOctalDigit ds) : IntLiteral ('0' :: ds)
  | octal {m : Char} {ds : List Char} (hm : m ∈ ['o', 'O']) (hs : Behind isOctalDigit ds) :
      IntLiteral ('0' :: m :: ds)
  | hex {m : Char} {ds : List Char} (hm : m ∈ ['x', 'X']) (hs : Behind isHexDigit ds) :
      IntLiteral ('0' :: m :: ds)

/-- An exponent that one of `marks` opens. -/
inductive Exponent (marks : List Char) : List Char → Prop
  | unsigned {m : Char} {ds : List Char} (hm : m ∈ marks) (hs : Digits Char.isDigit ds) :
      Exponent marks (m :: ds)
  | signed {m s : Char} {ds : List Char} (hm : m ∈ marks) (hsign : s ∈ ['+', '-'])
      (hs : Digits Char.isDigit ds) : Exponent marks (m :: s :: ds)

inductive HexMantissa : List Char → Prop
  | whole {ds : List Char} (hs : Behind isHexDigit ds) : HexMantissa ds
  | point {ds fs : List Char} (hs : Behind isHexDigit ds)
      (hf : Optional (Digits isHexDigit) fs) : HexMantissa (ds ++ '.' :: fs)
  | fraction {fs : List Char} (hf : Digits isHexDigit fs) : HexMantissa ('.' :: fs)

inductive FloatLiteral : List Char → Prop
  | point {ds fs es : List Char} (hs : Digits Char.isDigit ds)
      (hf : Optional (Digits Char.isDigit) fs) (he : Optional (Exponent ['e', 'E']) es) :
      FloatLiteral (ds ++ '.' :: (fs ++ es))
  | exponent {ds es : List Char} (hs : Digits Char.isDigit ds) (he : Exponent ['e', 'E'] es) :
      FloatLiteral (ds ++ es)
  | fraction {fs es : List Char} (hf : Digits Char.isDigit fs)
      (he : Optional (Exponent ['e', 'E']) es) : FloatLiteral ('.' :: (fs ++ es))
  | hex {m : Char} {ds es : List Char} (hm : m ∈ ['x', 'X']) (hs : HexMantissa ds)
      (he : Exponent ['p', 'P'] es) : FloatLiteral ('0' :: m :: (ds ++ es))

/-- The literals of the language that are numbers, with their classes. -/
inductive Literal : LiteralClass → List Char → Prop
  | int {ds : List Char} (h : IntLiteral ds) : Literal .int ds
  | float {ds : List Char} (h : FloatLiteral ds) : Literal .float ds
  | imaginary {ds : List Char}
      (h : Digits Char.isDigit ds ∨ IntLiteral ds ∨ FloatLiteral ds) :
      Literal .imaginary (ds ++ ['i'])

/-! ## Characters -/

theorem isWordChar_of_isHexDigit {c : Char} (h : isHexDigit c = true) : isWordChar c = true := by
  have hascii : c.toNat < 0x80 ∧ c.isAlphanum = true := by
    have hclass : c.isAlphanum = (decide (c.val ≥ 'A'.val ∧ c.val ≤ 'Z'.val) ||
        (decide (c.val ≥ 'a'.val) && decide (c.val ≤ 'z'.val)) || c.isDigit) := rfl
    simp only [hclass, isHexDigit, Char.isDigit, Bool.or_eq_true, Bool.and_eq_true,
      decide_eq_true_eq, Char.le_def, ge_iff_le, UInt32.le_iff_toNat_le, Char.toNat] at h ⊢
    simp at h ⊢
    omega
  rw [isWordChar, Text.isLetterOrNumeral, if_pos hascii.1, hascii.2, Bool.true_or]

theorem isHexDigit_of_isDigit {c : Char} (h : c.isDigit = true) : isHexDigit c = true := by
  simp [isHexDigit, h]

theorem isDigit_of_isOctalDigit {c : Char} (h : isOctalDigit c = true) : c.isDigit = true := by
  simp only [isOctalDigit, Char.isDigit, Bool.and_eq_true, decide_eq_true_eq, Char.le_def,
    ge_iff_le, UInt32.le_iff_toNat_le] at h ⊢
  simp at h ⊢
  omega

theorem isDigit_of_isBinaryDigit {c : Char} (h : isBinaryDigit c = true) : c.isDigit = true := by
  rw [isBinaryDigit, Bool.or_eq_true, beq_iff_eq, beq_iff_eq] at h
  rcases h with rfl | rfl <;> rfl

theorem isWordChar_of_isMantissaDigit {b : Base} {c : Char} (h : isMantissaDigit b c = true) :
    isWordChar c = true := by
  simp only [isMantissaDigit, Bool.or_eq_true, Bool.and_eq_true, beq_iff_eq] at h
  rcases h with (h | rfl) | ⟨-, h⟩
  · exact isWordChar_of_isHexDigit (isHexDigit_of_isDigit h)
  · rfl
  · exact isWordChar_of_isHexDigit h

/-- The end of the source, or a character that neither a word nor a number goes on with. -/
def Follows (r : List Char) : Prop := ∀ c, r.head? = some c → isWordChar c = false ∧ c ≠ '.'

/-- What stands behind the digits of a number. -/
inductive Halt : List Char → Prop
  | follows {r : List Char} (h : Follows r) : Halt r
  | suffix (r : List Char) : Halt ('i' :: r)

variable {b : Base} {f f' f'' : Bool} {r cs cs' : List Char}

theorem isWordChar_of_isExponentMark {c : Char} (h : b.isExponentMark c = true) :
    isWordChar c = true := by
  obtain ⟨hex, point⟩ := b
  cases hex with
  | true =>
    simp only [Base.isExponentMark, if_true, Bool.or_eq_true, beq_iff_eq] at h
    rcases h with rfl | rfl <;> decide +kernel
  | false =>
    simp only [Base.isExponentMark, Bool.false_eq_true, if_false, Bool.or_eq_true,
      beq_iff_eq] at h
    rcases h with rfl | rfl <;> decide +kernel

theorem isWordChar_of_isBaseMark {c : Char} (h : isBaseMark c = true) : isWordChar c = true := by
  have hall : ∀ d ∈ ['x', 'X', 'b', 'B', 'o', 'O'], isWordChar d = true :=
    List.all_eq_true.mp (by decide +kernel)
  exact hall c (of_decide_eq_true h)

theorem Halt.mantissa (h : Halt r) (b : Base) (f : Bool) : mantissa b f r = .ok ([], f) := by
  cases h with
  | follows h =>
    cases r with
    | nil => rw [Number.mantissa]
    | cons c r =>
      obtain ⟨hword, hpoint⟩ := h c rfl
      refine mantissa_stop (fun hd => ?_) (by simp [hpoint]) (fun hm => ?_)
      · rw [isWordChar_of_isMantissaDigit hd] at hword
        cases hword
      · rw [isWordChar_of_isExponentMark hm] at hword
        cases hword
  | suffix r =>
    have hdigit : isMantissaDigit b 'i' = false := by
      obtain ⟨hex, point⟩ := b
      cases hex <;> rfl
    have hmark : b.isExponentMark 'i' = false := by
      obtain ⟨hex, point⟩ := b
      cases hex <;> rfl
    exact mantissa_stop (by simp [hdigit]) (by simp) (by simp [hmark])

theorem Halt.isBaseMark (h : Halt r) {c : Char} (hc : r.head? = some c) : isBaseMark c = false := by
  cases h with
  | follows h =>
    rw [Bool.eq_false_iff]
    intro hm
    obtain ⟨hword, -⟩ := h c hc
    rw [isWordChar_of_isBaseMark hm] at hword
    cases hword
  | suffix r =>
    cases hc
    decide

/-! ## Parts of a mantissa -/

/-- The mantissa goes through `cs` and then on, with `f'` in place of `f`. -/
def Reads (b : Base) (f : Bool) (cs : List Char) (f' : Bool) : Prop :=
  ∀ r, mantissa b f (cs ++ r) = mantissa.extend cs (mantissa b f' r)

theorem extend_extend (m : Except (List Char) (List Char × Bool)) :
    mantissa.extend cs (mantissa.extend cs' m) = mantissa.extend (cs ++ cs') m := by
  cases m <;> simp [mantissa.extend]

theorem extend_nil (m : Except (List Char) (List Char × Bool)) : mantissa.extend [] m = m := by
  cases m <;> rfl

theorem Reads.append (h : Reads b f cs f') (h' : Reads b f' cs' f'') :
    Reads b f (cs ++ cs') f'' := by
  intro r
  rw [List.append_assoc, h, h', extend_extend]

/-- A part of a number that goes through the mantissa, ends in no underscore, and is not taken for
a base mark. -/
structure Part (b : Base) (f : Bool) (cs : List Char) (f' : Bool) : Prop where
  reads : Reads b f cs f'
  closed : cs.getLast? ≠ some '_'
  plain : b.hex = false → ∀ c ∈ cs, isBaseMark c = false

theorem isBaseMark_of_isMantissaDigit (hb : b.hex = false) {c : Char}
    (h : isMantissaDigit b c = true) : isBaseMark c = false := by
  rw [Bool.eq_false_iff]
  intro hm
  have hall : ∀ d ∈ ['x', 'X', 'b', 'B', 'o', 'O'], (!(d.isDigit || d == '_')) = true :=
    List.all_eq_true.mp (by decide)
  have hd : (c.isDigit || c == '_') = false := by
    rw [← Bool.not_eq_true']
    exact hall c (of_decide_eq_true hm)
  rw [isMantissaDigit, hd, hb] at h
  cases h

namespace Part

theorem nil : Part b f [] f :=
  ⟨fun _ => (extend_nil _).symm, by simp, fun _ _ h => by cases h⟩

theorem append (h : Part b f cs f') (h' : Part b f' cs' f'') : Part b f (cs ++ cs') f'' := by
  refine ⟨h.reads.append h'.reads, ?_, fun hb => ?_⟩
  · rw [List.getLast?_append]
    cases hl : cs'.getLast? with
    | none => simpa using h.closed
    | some c => simpa [hl] using h'.closed
  · exact List.forall_mem_append.mpr ⟨h.plain hb, h'.plain hb⟩

theorem digit {c : Char} (h : isMantissaDigit b c = true) (hne : c ≠ '_') : Part b f [c] f := by
  refine ⟨fun _ => mantissa_digit h, by simpa using hne, fun hb => ?_⟩
  simpa using isBaseMark_of_isMantissaDigit hb h

/-- What stands before a part is read together with it. -/
theorem behind (front : List Char) (h : Part b f' cs f'') (hne : cs ≠ [])
    (hreads : Reads b f (front ++ cs) f'') (hplain : ∀ c ∈ front, isBaseMark c = false) :
    Part b f (front ++ cs) f'' := by
  refine ⟨hreads, ?_, fun hb => List.forall_mem_append.mpr ⟨hplain, h.plain hb⟩⟩
  rw [List.getLast?_append_of_ne_nil _ hne]
  exact h.closed

theorem underscore (h : Part b f cs f') (hne : cs ≠ []) : Part b f ('_' :: cs) f' := by
  have hdigit : isMantissaDigit b '_' = true := by simp [isMantissaDigit]
  have hreads : Reads b f ['_'] f := fun _ => mantissa_digit hdigit
  exact h.behind ['_'] hne (hreads.append h.reads) (List.forall_mem_singleton.mpr (by decide))

theorem point (h : b.point = true) : Part b false ['.'] true := by
  have hdigit : ¬isMantissaDigit b '.' = true := by
    obtain ⟨hex, point⟩ := b
    cases hex <;> exact Bool.false_ne_true
  refine ⟨fun _ => mantissa_point hdigit (by simp [h]), by simp, fun _ => ?_⟩
  exact List.forall_mem_singleton.mpr (by decide)

theorem optional {P : List Char → Prop} (h : Optional P cs) (hpart : P cs → Part b f cs f) :
    Part b f cs f := by
  cases h with
  | absent => exact nil
  | present h => exact hpart h

end Part

/-! ## Digits and exponents -/

/-- The digits that `isDigit` accepts are digits of a mantissa. -/
def Fits (b : Base) (isDigit : Char → Bool) : Prop :=
  ∀ c, isDigit c = true → isMantissaDigit b c = true ∧ c ≠ '_'

theorem fits_decimal (b : Base) : Fits b Char.isDigit := by
  intro c h
  refine ⟨by simp [isMantissaDigit, h], ?_⟩
  rintro rfl
  exact absurd h (by decide)

theorem fits_octal (b : Base) : Fits b isOctalDigit :=
  fun c h => fits_decimal b c (isDigit_of_isOctalDigit h)

theorem fits_binary (b : Base) : Fits b isBinaryDigit :=
  fun c h => fits_decimal b c (isDigit_of_isBinaryDigit h)

theorem fits_hex (hb : b.hex = true) : Fits b isHexDigit := by
  intro c h
  refine ⟨by simp [isMantissaDigit, hb, h], ?_⟩
  rintro rfl
  exact absurd h (by decide)

variable {isDigit : Char → Bool} {ds : List Char}

theorem Digits.exists_cons (h : Digits isDigit ds) :
    ∃ d ds', ds = d :: ds' ∧ isDigit d = true := by
  cases h with
  | one h => exact ⟨_, _, rfl, h⟩
  | next h hs => exact ⟨_, _, rfl, h⟩
  | spaced h hs => exact ⟨_, _, rfl, h⟩

theorem Digits.ne_nil (h : Digits isDigit ds) : ds ≠ [] := by
  obtain ⟨d, ds', rfl, -⟩ := h.exists_cons
  exact List.cons_ne_nil d ds'

theorem Digits.part (h : Digits isDigit ds) (hfits : Fits b isDigit) : Part b f ds f := by
  induction h with
  | one h => exact .digit (hfits _ h).1 (hfits _ h).2
  | next h hs ih => exact (Part.digit (hfits _ h).1 (hfits _ h).2).append ih
  | spaced h hs ih =>
    exact (Part.digit (hfits _ h).1 (hfits _ h).2).append (ih.underscore hs.ne_nil)

theorem Behind.part (h : Behind isDigit ds) (hfits : Fits b isDigit) : Part b f ds f := by
  cases h with
  | next hs => exact hs.part hfits
  | spaced hs => exact (hs.part hfits).underscore hs.ne_nil

theorem Behind.ne_nil (h : Behind isDigit ds) : ds ≠ [] := by
  cases h with
  | next hs => exact hs.ne_nil
  | spaced hs => exact List.cons_ne_nil _ _

/-- An exponent is read with its sign, and makes the number fractional. -/
theorem Exponent.part {marks es : List Char} (h : Exponent marks es)
    (hmarks : ∀ m ∈ marks, b.isExponentMark m = true ∧ isMantissaDigit b m = false ∧ m ≠ '.' ∧
      isBaseMark m = false) :
    Part b f es true := by
  have hpart {ds : List Char} (hs : Digits Char.isDigit ds) : Part b true ds true :=
    hs.part (fits_decimal b)
  cases h with
  | @unsigned m ds hm hs =>
    obtain ⟨hmark, hdigit, hpoint, hbase⟩ := hmarks m hm
    refine (hpart hs).behind [m] hs.ne_nil (fun r => ?_) (by simpa using hbase)
    obtain ⟨d, ds', rfl, hd⟩ := hs.exists_cons
    have hsign : (d == '+' || d == '-') = false := by
      rw [Bool.eq_false_iff]
      intro he
      rw [Bool.or_eq_true, beq_iff_eq, beq_iff_eq] at he
      rcases he with rfl | rfl <;> exact absurd hd (by decide)
    have hmantissa : mantissa b f (m :: (d :: ds' ++ r)) =
        mantissa.extend [m] (mantissa b true (d :: ds' ++ r)) := by
      rw [mantissa_mark (by simp [hdigit]) (by simp [hpoint]) hmark]
      simp only [List.cons_append, hsign, hd, if_true, Bool.false_eq_true, if_false]
    rw [List.append_assoc, List.singleton_append, hmantissa, (hpart hs).reads, extend_extend]
  | @signed m s ds hm hsign hs =>
    obtain ⟨hmark, hdigit, hpoint, hbase⟩ := hmarks m hm
    have hplain : isBaseMark s = false := by
      rcases List.mem_pair.mp hsign with rfl | rfl <;> decide
    refine (hpart hs).behind [m, s] hs.ne_nil (fun r => ?_)
      (by simpa using ⟨hbase, hplain⟩)
    obtain ⟨d, ds', rfl, hd⟩ := hs.exists_cons
    have hs' : (s == '+' || s == '-') = true := by simpa using hsign
    have hstart : startsWithDigit (d :: ds' ++ r) = true := hd
    have hmantissa : mantissa b f (m :: s :: (d :: ds' ++ r)) =
        mantissa.extend [m, s] (mantissa b true (d :: ds' ++ r)) := by
      rw [mantissa_mark (by simp [hdigit]) (by simp [hpoint]) hmark]
      simp only [hs', hstart, if_true]
    have hassoc : [m, s] ++ d :: ds' ++ r = m :: s :: (d :: ds' ++ r) := by simp
    rw [hassoc, hmantissa, (hpart hs).reads, extend_extend]

/-! ## The digits of a literal -/

/-- What a number may have without a base mark. -/
def Base.decimal : Base := ⟨false, true⟩

/-- What a number may have in base sixteen. -/
def Base.hexadecimal : Base := ⟨true, true⟩

/-- What the base mark `m` permits. -/
def Base.ofMark (m : Char) : Base := ⟨m == 'x' || m == 'X', m == 'x' || m == 'X'⟩

theorem ofMark_hex {m : Char} (h : m ∈ ['x', 'X']) :
    isBaseMark m = true ∧ Base.ofMark m = .hexadecimal := by
  rcases List.mem_cons.mp h with rfl | h
  · exact ⟨rfl, rfl⟩
  · cases List.mem_singleton.mp h
    exact ⟨rfl, rfl⟩

/-- Before the end of a number `ds` is read as its digits, which have no base mark if they are
`bare`, and are more than a base mark otherwise. -/
structure Scanned (bare f : Bool) (ds : List Char) : Prop where
  digits_append : ∀ r, Halt r → digits (ds ++ r) = .ok (ds, f)
  baseMark_append : ∀ r, Halt r → (baseMark (ds ++ r)).1.isEmpty = bare
  closed : ds.getLast? ≠ some '_'
  full : bare = false → ds.length ≠ 2

theorem baseMark_of_plain {c : Char} (h : ∀ m, r.head? = some m → isBaseMark m = false) :
    baseMark (c :: r) = ([], .decimal) := by
  unfold baseMark
  split
  · rename_i m r' heq
    obtain ⟨-, rfl⟩ := List.cons.inj heq
    rw [if_neg (by simp [h m rfl])]
    rfl
  · rfl

theorem baseMark_of_mark {m : Char} (h : isBaseMark m = true) :
    baseMark ('0' :: m :: r) = (['0', m], .ofMark m) := by
  simp only [baseMark, h, if_true]
  rfl

theorem Part.scanned (h : Part .decimal false ds f) (hne : ds ≠ []) : Scanned true f ds := by
  obtain ⟨c, ds', rfl⟩ := List.exists_cons_of_ne_nil hne
  have hmark {r : List Char} (hr : Halt r) : baseMark (c :: ds' ++ r) = ([], .decimal) := by
    refine baseMark_of_plain fun m hm => ?_
    cases ds' with
    | nil => exact hr.isBaseMark hm
    | cons d ds' =>
      cases hm
      exact h.plain rfl m (by simp)
  refine ⟨fun r hr => ?_, fun r hr => ?_, h.closed, fun hb => by cases hb⟩
  · rw [digits, hmark hr, extend_nil]
    simp only [List.length_nil, List.drop_zero]
    rw [h.reads, hr.mantissa]
    simp [mantissa.extend]
  · rw [hmark hr]
    rfl

theorem Part.scanned_mark {m : Char} (hm : isBaseMark m = true) (h : Part (.ofMark m) false ds f)
    (hne : ds ≠ []) : Scanned false f ('0' :: m :: ds) := by
  refine ⟨fun r hr => ?_, fun r hr => ?_, ?_, fun _ => ?_⟩
  · rw [digits, List.cons_append, List.cons_append, baseMark_of_mark hm]
    simp only [List.length_cons, List.length_nil, List.drop_succ_cons, List.drop_zero]
    rw [h.reads, hr.mantissa]
    simp [mantissa.extend]
  · rw [List.cons_append, List.cons_append, baseMark_of_mark hm]
    rfl
  · rw [List.getLast?_cons_of_ne_nil (List.cons_ne_nil _ _), List.getLast?_cons_of_ne_nil hne]
    exact h.closed
  · have hpos := List.length_pos_iff.mpr hne
    simp only [List.length_cons]
    omega

theorem Digits.scanned (h : Digits Char.isDigit ds) : Scanned true false ds :=
  (h.part (fits_decimal _)).scanned h.ne_nil

theorem Exponent.part_decimal {es : List Char} (h : Exponent ['e', 'E'] es) :
    Part .decimal f es true := by
  refine h.part fun m hm => ?_
  rcases List.mem_pair.mp hm with rfl | rfl <;> decide

theorem Exponent.part_hexadecimal {es : List Char} (h : Exponent ['p', 'P'] es) :
    Part .hexadecimal f es true := by
  refine h.part fun m hm => ?_
  rcases List.mem_pair.mp hm with rfl | rfl <;> decide

theorem Exponent.ne_nil {marks es : List Char} (h : Exponent marks es) : es ≠ [] := by
  cases h <;> exact List.cons_ne_nil _ _

theorem HexMantissa.part (h : HexMantissa ds) : ∃ f, Part .hexadecimal false ds f := by
  have hfits : Fits .hexadecimal isHexDigit := fits_hex rfl
  have hpoint : Part .hexadecimal false ['.'] true := .point rfl
  cases h with
  | whole hs => exact ⟨false, hs.part hfits⟩
  | point hs hf =>
    have htail : Part .hexadecimal true _ true := .optional hf fun hf => hf.part hfits
    exact ⟨true, (hs.part hfits).append (hpoint.append htail)⟩
  | fraction hf => exact ⟨true, hpoint.append (hf.part hfits)⟩

theorem FloatLiteral.scanned (h : FloatLiteral ds) : ∃ bare, Scanned bare true ds := by
  have hpart {ds : List Char} {f : Bool} (hs : Digits Char.isDigit ds) : Part .decimal f ds f :=
    hs.part (fits_decimal _)
  have hpoint : Part .decimal false ['.'] true := .point rfl
  cases h with
  | point hs hf he =>
    have htail := (Part.optional hf hpart).append (Part.optional he Exponent.part_decimal)
    exact ⟨true, ((hpart hs).append (hpoint.append htail)).scanned (by simp)⟩
  | exponent hs he =>
    exact ⟨true, ((hpart hs).append he.part_decimal).scanned (by simp [hs.ne_nil])⟩
  | fraction hf he =>
    have htail := (hpart hf).append (Part.optional he Exponent.part_decimal)
    exact ⟨true, (hpoint.append htail).scanned (by simp)⟩
  | @hex m ds es hm hs he =>
    obtain ⟨hmark, hbase⟩ := ofMark_hex hm
    obtain ⟨f, hmantissa⟩ := hs.part
    have hpart : Part (.ofMark m) false (ds ++ es) true :=
      hbase ▸ hmantissa.append he.part_hexadecimal
    exact ⟨false, hpart.scanned_mark hmark (by simp [he.ne_nil])⟩

/-- A number with further digits behind a zero has no digit eight or nine. -/
def IsOctal (ds : List Char) : Prop :=
  1 < ds.length → ds.head? = some '0' → ∀ c ∈ ds, c ≠ '8' ∧ c ≠ '9'

theorem Digits.forall_mem {P : Char → Prop} (h : Digits isDigit ds)
    (hdigit : ∀ c, isDigit c = true → P c) (hunderscore : P '_') : ∀ c ∈ ds, P c := by
  induction h with
  | one h => simpa using hdigit _ h
  | next h hs ih => exact List.forall_mem_cons.mpr ⟨hdigit _ h, ih⟩
  | spaced h hs ih =>
    exact List.forall_mem_cons.mpr ⟨hdigit _ h, List.forall_mem_cons.mpr ⟨hunderscore, ih⟩⟩

theorem Behind.forall_mem {P : Char → Prop} (h : Behind isDigit ds)
    (hdigit : ∀ c, isDigit c = true → P c) (hunderscore : P '_') : ∀ c ∈ ds, P c := by
  cases h with
  | next hs => exact hs.forall_mem hdigit hunderscore
  | spaced hs =>
    exact List.forall_mem_cons.mpr ⟨hunderscore, hs.forall_mem hdigit hunderscore⟩

theorem IntLiteral.scanned (h : IntLiteral ds) :
    ∃ bare, Scanned bare false ds ∧ (bare = true → IsOctal ds) := by
  have hzero : Part .decimal false ['0'] false := .digit (by decide) (by decide)
  have hmarked {m : Char} {ds : List Char} (hm : isBaseMark m = true)
      {isDigit : Char → Bool} (hfits : Fits (.ofMark m) isDigit) (hs : Behind isDigit ds) :
      ∃ bare, Scanned bare false ('0' :: m :: ds) ∧ (bare = true → IsOctal ('0' :: m :: ds)) :=
    ⟨false, (hs.part hfits).scanned_mark hm hs.ne_nil, fun hb => by cases hb⟩
  cases h with
  | zero => exact ⟨true, hzero.scanned (by simp), fun _ hlong => absurd hlong (by decide)⟩
  | @decimal c ds h hne hs =>
    have hdigit : Part .decimal false [c] false := (Digits.one h).part (fits_decimal _)
    have htail : Part .decimal false ds false := .optional hs fun hs => hs.part (fits_decimal _)
    refine ⟨true, (hdigit.append htail).scanned (by simp), fun _ _ hhead => ?_⟩
    cases hhead
    exact absurd rfl hne
  | binary hm hs =>
    have hall : ∀ m ∈ ['b', 'B'], isBaseMark m = true := List.all_eq_true.mp (by decide)
    exact hmarked (hall _ hm) (fits_binary _) hs
  | legacyOctal hs =>
    have htail : Part .decimal false _ false := hs.part (fits_octal _)
    refine ⟨true, (hzero.append htail).scanned (by simp), fun _ _ _ => ?_⟩
    have hoctal (c : Char) (hc : isOctalDigit c = true) : c ≠ '8' ∧ c ≠ '9' := by
      constructor <;> rintro rfl <;> exact absurd hc (by decide)
    exact List.forall_mem_cons.mpr ⟨by decide, hs.forall_mem hoctal (by decide)⟩
  | octal hm hs =>
    have hall : ∀ m ∈ ['o', 'O'], isBaseMark m = true := List.all_eq_true.mp (by decide)
    exact hmarked (hall _ hm) (fits_octal _) hs
  | hex hm hs =>
    obtain ⟨hmark, hbase⟩ := ofMark_hex hm
    exact hmarked hmark (fits_hex (by rw [hbase]; rfl)) hs

/-! ## Literals -/

variable {bare : Bool}

theorem Scanned.read_eq (h : Scanned bare f ds) (hr : Halt r) :
    read (ds ++ r) = judge bare ds f r := by
  rw [Number.read_eq, h.digits_append r hr]
  simp only [Except.bind, h.baseMark_append r hr, List.drop_left]

theorem takeWhile_of_follows (h : Follows r) : r.takeWhile isWordChar = [] := by
  cases r with
  | nil => rfl
  | cons c r => rw [List.takeWhile_cons, (h c rfl).1, if_neg Bool.false_ne_true]

theorem Scanned.closed_full (h : Scanned bare f ds) :
    (ds.getLast? == some '_' || (!bare && ds.length == 2)) = false := by
  have hclosed : (ds.getLast? == some '_') = false := by simpa using h.closed
  rw [hclosed, Bool.false_or]
  cases hb : bare with
  | true => rfl
  | false => simpa using h.full hb

theorem Scanned.read_real (h : Scanned bare f ds) (hoctal : bare = true → f = false → IsOctal ds)
    (hr : Follows r) : read (ds ++ r) = .ok (if f then .float else .int, ds) := by
  have hi : (r.head? == some 'i') = false := by
    rw [Bool.eq_false_iff]
    intro hi
    obtain ⟨hword, -⟩ := hr 'i' (by simpa using hi)
    exact absurd hword (by decide +kernel)
  have hsuffix : suffix r = [] := by rw [suffix, hi, if_neg Bool.false_ne_true]
  have hlegacy : (bare && !f && decide (ds.length > 1) && ds.head? == some '0' &&
      ds.any (fun c => c == '8' || c == '9') && !false) = false := by
    rw [Bool.eq_false_iff]
    intro hbad
    simp only [Bool.and_eq_true, Bool.not_eq_true', decide_eq_true_eq, beq_iff_eq,
      List.any_eq_true, Bool.or_eq_true] at hbad
    obtain ⟨⟨⟨⟨⟨hb, hf⟩, hlong⟩, hhead⟩, c, hc, he⟩, -⟩ := hbad
    obtain ⟨height, hnine⟩ := hoctal hb hf hlong hhead c hc
    exact he.elim height hnine
  rw [h.read_eq (.follows hr), judge]
  simp only [hi, hsuffix, h.closed_full, hlegacy, List.length_nil, List.drop_zero,
    takeWhile_of_follows hr, List.isEmpty_nil, Bool.not_true, Bool.false_eq_true, if_false,
    List.append_nil]

theorem Scanned.read_imaginary (h : Scanned bare f ds) (hr : Follows r) :
    read (ds ++ 'i' :: r) = .ok (.imaginary, ds ++ ['i']) := by
  rw [h.read_eq (.suffix r), judge]
  simp [suffix, h.closed_full, takeWhile_of_follows hr]

/-- A literal is read up to its last character, with its class. -/
theorem Literal.read {cls : LiteralClass} {w : List Char} (h : Literal cls w) (hr : Follows r) :
    read (w ++ r) = .ok (cls, w) := by
  cases h with
  | int h =>
    obtain ⟨bare, hscanned, hoctal⟩ := h.scanned
    exact hscanned.read_real (fun hb _ => hoctal hb) hr
  | float h =>
    obtain ⟨bare, hscanned⟩ := h.scanned
    exact hscanned.read_real (fun _ hf => by cases hf) hr
  | @imaginary ds h =>
    have hscanned : ∃ bare f, Scanned bare f ds := by
      rcases h with h | h | h
      · exact ⟨true, false, h.scanned⟩
      · obtain ⟨bare, hscanned, -⟩ := h.scanned
        exact ⟨bare, false, hscanned⟩
      · obtain ⟨bare, hscanned⟩ := h.scanned
        exact ⟨bare, true, hscanned⟩
    obtain ⟨bare, f, hscanned⟩ := hscanned
    rw [List.append_assoc, List.singleton_append]
    exact hscanned.read_imaginary hr

/-! ## Literals in a source -/

/-- Wherever the text stands in a source, a number begins with it. -/
def Opens (w : List Char) : Prop := ∃ c t, w = c :: t ∧ ∀ r, Piece.startsNumber c (t ++ r) = true

theorem opens_of_isDigit {c : Char} (h : c.isDigit = true) (t : List Char) : Opens (c :: t) :=
  ⟨c, t, rfl, fun _ => by simp [Piece.startsNumber, h]⟩

theorem Digits.opens (h : Digits Char.isDigit ds) (t : List Char) : Opens (ds ++ t) := by
  obtain ⟨d, ds', rfl, hd⟩ := h.exists_cons
  exact opens_of_isDigit hd (ds' ++ t)

theorem Digits.opens_point (h : Digits Char.isDigit ds) (t : List Char) :
    Opens ('.' :: (ds ++ t)) := by
  obtain ⟨d, ds', rfl, hd⟩ := h.exists_cons
  exact ⟨'.', d :: ds' ++ t, rfl, fun _ => by simp [Piece.startsNumber, startsWithDigit, hd]⟩

theorem Opens.append {w : List Char} (h : Opens w) (t : List Char) : Opens (w ++ t) := by
  obtain ⟨c, t', rfl, hstarts⟩ := h
  exact ⟨c, t' ++ t, rfl, fun r => by rw [List.append_assoc]; exact hstarts (t ++ r)⟩

theorem IntLiteral.opens (h : IntLiteral ds) : Opens ds := by
  cases h with
  | decimal h => exact opens_of_isDigit h _
  | zero => exact opens_of_isDigit (by decide) _
  | binary => exact opens_of_isDigit (by decide) _
  | legacyOctal => exact opens_of_isDigit (by decide) _
  | octal => exact opens_of_isDigit (by decide) _
  | hex => exact opens_of_isDigit (by decide) _

theorem FloatLiteral.opens (h : FloatLiteral ds) : Opens ds := by
  cases h with
  | point hs => exact hs.opens _
  | exponent hs => exact hs.opens _
  | fraction hf => exact hf.opens_point _
  | hex => exact opens_of_isDigit (by decide) _

theorem Literal.opens {cls : LiteralClass} {w : List Char} (h : Literal cls w) : Opens w := by
  cases h with
  | int h => exact h.opens
  | float h => exact h.opens
  | imaginary h =>
    rcases h with h | h | h
    · exact h.opens _
    · exact h.opens.append _
    · exact h.opens.append _

/-- A number that can be read is the first piece of the source. -/
theorem first_of_read {c : Char} {t w : List Char} {cls : LiteralClass}
    (h : Piece.startsNumber c t = true) (hread : read (c :: t) = .ok (cls, w)) :
    Piece.first c t = .ok (.written (.literal cls (String.ofList w)) w) := by
  have hne : ∀ d, d.isDigit = false → d ≠ '.' → c ≠ d := by
    rintro d hd hpoint rfl
    simp [Piece.startsNumber, hd, hpoint] at h
  have hslash : c ≠ '/' := hne _ (by decide) (by decide)
  have hblank : ¬(c = ' ' ∨ c = '\t' ∨ c = '\r') := by
    rintro (hc | hc | hc)
    · exact hne _ (by decide) (by decide) hc
    · exact hne _ (by decide) (by decide) hc
    · exact hne _ (by decide) (by decide) hc
  unfold Piece.first
  rw [if_neg (hne _ (by decide) (by decide)), if_neg hblank, if_neg fun h => hslash h.1,
    if_neg fun h => hslash h.1, if_neg (hne _ (by decide) (by decide)),
    if_neg (hne _ (by decide) (by decide)), if_neg (hne _ (by decide) (by decide)), if_pos h, hread]

/-- At the front of a source a literal is read up to its last character, with its class, and cut off
as the token of that class, if neither a word nor a number could go on behind it. -/
theorem cut_literal {cls : LiteralClass} {w r : List Char} (h : Literal cls w) (hr : Follows r) :
    read (w ++ r) = .ok (cls, w) ∧
      Piece.cut (w ++ r) =
        Piece.behind [.written (.literal cls (String.ofList w)) w] (Piece.cut r) := by
  have hread := h.read hr
  obtain ⟨c, t, rfl, hstarts⟩ := h.opens
  rw [List.cons_append] at hread ⊢
  have hfirst : Piece.first c (t ++ r) =
      .ok (.written (.literal cls (String.ofList (c :: t))) (c :: t)) :=
    first_of_read (hstarts r) hread
  refine ⟨hread, ?_⟩
  rw [Piece.cut_eq_behind hfirst, Piece.text, List.length_cons, Nat.add_sub_cancel, List.drop_left]

/-- A hexadecimal fraction with an exponent is an imaginary number before a sign. -/
theorem cut_hexImaginary :
    Literal .imaginary "0x_1F.8p-2i".toList ∧ Follows "+1".toList ∧
      read "0x_1F.8p-2i+1".toList = .ok (.imaginary, "0x_1F.8p-2i".toList) := by
  have hmantissa : HexMantissa ['_', '1', 'F', '.', '8'] :=
    .point (.spaced (.next (by decide) (.one (by decide)))) (.present (.one (by decide)))
  have hexponent : Exponent ['p', 'P'] ['p', '-', '2'] :=
    .signed (by decide) (by decide) (.one (by decide))
  have hliteral : Literal .imaginary "0x_1F.8p-2i".toList :=
    .imaginary (.inr (.inr (.hex (by decide) hmantissa hexponent)))
  have hfollows : Follows "+1".toList := by
    intro c hc
    cases hc
    decide +kernel
  exact ⟨hliteral, hfollows, (cut_literal hliteral hfollows).1⟩

end GoRepl.Number
