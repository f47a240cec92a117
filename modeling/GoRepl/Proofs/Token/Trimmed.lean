import GoRepl.Proofs.Token.FirstKind
import GoRepl.Proofs.Token.Trailing

/-! # Sources without blank ends

Taking blank characters off the ends of a source leaves its tokens as they are.

* `Piece.kinds_of_blank_append`, `Piece.kinds_of_append_blank`: blank characters on one side.
* `Token.firstKind?_trim`, `Token.cut_trim`: the first token and all tokens of a trimmed source.
-/

namespace GoRepl

namespace Piece

/-! ## Blank texts -/

/-- A blank character in front is a piece of its own, or it is a fault. -/
theorem first_blank_cases {c : Char} {r : List Char} (hc : Text.isBlank c = true) :
    first c r = .ok newline ∨ first c r = .ok (blank c) ∨
      first c r = .error (.unexpectedChar c) := by
  by_cases hn : c = '\n'
  · rw [hn]
    exact .inl rfl
  by_cases hb : c = ' ' ∨ c = '\t' ∨ c = '\r'
  · rw [first, if_neg hn, if_pos hb]
    exact .inr (.inl rfl)
  · exact .inr (.inr (first_unexpected (opensToken_blank hc) hn hb))

/-- A piece that a blank text begins with is one character long, and no token. -/
theorem first_blank {c : Char} {r : List Char} {p : Piece} (hc : Text.isBlank c = true)
    (h : first c r = .ok p) : (p = newline ∨ p = blank c) := by
  obtain hf | hf | hf := first_blank_cases (r := r) hc
  all_goals rw [hf] at h; cases h
  · exact .inl rfl
  · exact .inr rfl

theorem inert_of_blank {y : List Char} (hy : ∀ c ∈ y, Text.isBlank c = true) : Inert y := by
  intro c hc
  rw [isInert, hy c hc, Bool.true_or]

theorem kind?_cutBefore_blank {y : List Char} (hy : ∀ c ∈ y, Text.isBlank c = true) :
    (cutBefore y).findSome? kind? = none := by
  induction y with
  | nil =>
    rw [cutBefore_nil]
    rfl
  | cons c y ih =>
    obtain ⟨hc, hy⟩ := List.forall_mem_cons.mp hy
    rw [cutBefore_cons]
    cases hf : first c y with
    | error e => rfl
    | ok p =>
      rcases first_blank hc hf with rfl | rfl
      · exact ih hy
      · exact ih hy

/-- Blank characters add no token but a semicolon. -/
theorem kinds_blank {y : List Char} (hy : ∀ c ∈ y, Text.isBlank c = true) {qs : List Piece}
    (h : cut y = .ok qs) (ends : Bool) : kinds ends qs = ended ends ++ [.eof] := by
  induction y generalizing ends qs with
  | nil =>
    rw [cut] at h
    cases h
    rfl
  | cons c y ih =>
    obtain ⟨hc, hy⟩ := List.forall_mem_cons.mp hy
    obtain ⟨p, ps, hf, hcut, rfl⟩ := cut_cons h
    rcases first_blank hc hf with rfl | rfl
    · rw [kinds, ih hy hcut]
      rfl
    · exact ih hy hcut ends

/-- Blank characters in front of a source add no token. -/
theorem kinds_of_blank_append {a x : List Char} (ha : ∀ c ∈ a, Text.isBlank c = true)
    {qs : List Piece} (h : cut (a ++ x) = .ok qs) :
    ∃ ps, cut x = .ok ps ∧ kinds false qs = kinds false ps := by
  induction a generalizing qs with
  | nil => exact ⟨qs, h, rfl⟩
  | cons c a ih =>
    obtain ⟨hc, ha⟩ := List.forall_mem_cons.mp ha
    obtain ⟨p, qs, hf, hcut, rfl⟩ := cut_cons h
    rcases first_blank hc hf with rfl | rfl
    · obtain ⟨ps, hps, hkinds⟩ := ih ha hcut
      exact ⟨ps, hps, hkinds⟩
    · obtain ⟨ps, hps, hkinds⟩ := ih ha hcut
      exact ⟨ps, hps, hkinds⟩

theorem firstKind?_of_blank_append {a x : List Char} (ha : ∀ c ∈ a, Text.isBlank c = true)
    {k : Kind} (h : (cutBefore (a ++ x)).findSome? kind? = some k) :
    (cutBefore x).findSome? kind? = some k := by
  induction a with
  | nil => exact h
  | cons c a ih =>
    obtain ⟨hc, ha⟩ := List.forall_mem_cons.mp ha
    rw [List.cons_append, cutBefore_cons] at h
    cases hf : first c (a ++ x) with
    | error e =>
      rw [hf] at h
      cases h
    | ok p =>
      rw [hf] at h
      rcases first_blank hc hf with rfl | rfl
      · exact ih ha h
      · exact ih ha h

/-! ## Blank texts behind a source -/

/-- A source that ends in a line comment has its pieces in front of the comment. -/
theorem getLast?_eq_lineComment (ps : List Piece) :
    (∀ t, ps.getLast? ≠ some (lineComment t)) ∨ ∃ ps' t, ps = ps' ++ [lineComment t] := by
  by_cases h : ∃ t, ps.getLast? = some (lineComment t)
  · obtain ⟨t, ht⟩ := h
    exact .inr ⟨ps.dropLast, t, (List.dropLast_append_getLast? _ ht).symm⟩
  · exact .inl fun t ht => h ⟨t, ht⟩

theorem exists_lineFeed (y : List Char) : ∃ b z, y = b ++ z ∧ '\n' ∉ b ∧
    (z = [] ∨ ∃ z', z = '\n' :: z') := by
  induction y with
  | nil => exact ⟨[], [], rfl, List.not_mem_nil, .inl rfl⟩
  | cons c y ih =>
    by_cases hc : c = '\n'
    · exact ⟨[], c :: y, rfl, List.not_mem_nil, .inr ⟨y, by rw [hc]⟩⟩
    · obtain ⟨b, z, rfl, hb, hz⟩ := ih
      exact ⟨c :: b, z, rfl, List.not_mem_cons_of_ne_of_not_mem (Ne.symm hc) hb, hz⟩

/-- Blank characters behind a source add no token. -/
theorem kinds_of_append_blank {x b : List Char} (hb : ∀ c ∈ b, Text.isBlank c = true)
    {qs : List Piece} (h : cut (x ++ b) = .ok qs) :
    ∃ ps, cut x = .ok ps ∧ kinds false qs = kinds false ps := by
  have hinert := inert_of_blank hb
  obtain ⟨ps, hps⟩ := exists_cut_of_inert hinert h
  refine ⟨ps, hps, ?_⟩
  rcases getLast?_eq_lineComment ps with hlast | ⟨ps', t, rfl⟩
  · rw [cut_inert hinert hps hlast] at h
    obtain ⟨bs, hbs, rfl⟩ := behind_eq_ok.mp h
    rw [kinds_append, kinds_blank hb hbs, kinds_eq_front]
  · obtain ⟨y, z, rfl, hn, hz⟩ := exists_lineFeed b
    rw [cut_comment hinert hn hz hps] at h
    obtain ⟨bs, hbs, rfl⟩ := behind_eq_ok.mp h
    have hzb : ∀ c ∈ z, Text.isBlank c = true := fun c hc => hb c (List.mem_append_right y hc)
    have hcomment : kinds false (ps' ++ [lineComment (t ++ y)] ++ bs) =
        front false ps' ++ kinds (endsBehind false ps') bs := by
      rw [List.append_assoc, kinds_append]
      rfl
    rw [hcomment, kinds_blank hzb hbs, kinds_append]
    rfl

/-- A comment that goes to the end of the source leaves blank characters only. -/
theorem kind?_cutBefore_lastComment {r b : List Char} (hb : ∀ c ∈ b, Text.isBlank c = true)
    (hhead : r.head? = some '/') (hn : '\n' ∉ r) :
    (cutBefore ('/' :: (r ++ b))).findSome? kind? = none := by
  have hhead' : (r ++ b).head? = some '/' := by
    rw [List.head?_append, hhead]
    rfl
  have hrest : ∀ d ∈ (r ++ b).drop ((r ++ b).takeWhile (· ≠ '\n')).length,
      Text.isBlank d = true := by
    rw [List.takeWhile_append, takeWhile_eq_self hn, if_pos rfl, List.length_append,
      List.drop_append, List.drop_of_length_le (Nat.le_add_right _ _)]
    exact fun d hd => hb d (List.mem_of_mem_drop hd)
  rw [cutBefore_cons, first_lineComment hhead']
  change (cutBefore ((r ++ b).drop (List.length _))).findSome? kind? = none
  exact kind?_cutBefore_blank hrest

theorem firstKind?_of_append_blank {x b : List Char} (hb : ∀ c ∈ b, Text.isBlank c = true)
    {k : Kind} (h : (cutBefore (x ++ b)).findSome? kind? = some k) :
    (cutBefore x).findSome? kind? = some k := by
  induction hlen : x.length using Nat.strong_induction_on generalizing x with
  | h n ih =>
    cases x with
    | nil =>
      rw [List.nil_append, kind?_cutBefore_blank hb] at h
      cases h
    | cons c r =>
      rw [List.cons_append] at h
      rcases first_inert_cases (c := c) (x := r) (inert_of_blank hb) with
        hsame | ⟨rfl, hhead, hn⟩
      · rw [cutBefore_cons, hsame] at h
        rw [cutBefore_cons]
        cases hf : first c r with
        | error e =>
          rw [hf] at h
          cases h
        | ok p =>
          rw [hf] at h
          dsimp only at h ⊢
          rw [drop_append_of_first hf, List.findSome?_cons] at h
          rw [List.findSome?_cons]
          split at h
          · exact h
          · refine ih _ ?_ h rfl
            rw [← hlen, List.length_drop, List.length_cons]
            omega
      · rw [kind?_cutBefore_lastComment hb hhead hn] at h
        cases h

end Piece

namespace Token

theorem firstKind?_trim {source : String} {k : Kind} (h : firstKind? source = some k) :
    firstKind? (Text.trim source) = some k := by
  obtain ⟨a, b, hs, ha, hb⟩ := Text.exists_trim source
  rw [firstKind?, hs, List.append_assoc] at h
  exact Piece.firstKind?_of_append_blank hb (Piece.firstKind?_of_blank_append ha h)

/-- A trimmed source has the tokens of the source. -/
theorem cut_trim {source : String} {qs : List Piece} (h : Piece.cut source.toList = .ok qs) :
    ∃ ps, Piece.cut (Text.trim source).toList = .ok ps ∧
      Piece.kinds false qs = Piece.kinds false ps := by
  obtain ⟨a, b, hs, ha, hb⟩ := Text.exists_trim source
  rw [hs, List.append_assoc] at h
  obtain ⟨rs, hrs, hkinds⟩ := Piece.kinds_of_blank_append ha h
  obtain ⟨ps, hps, hkinds'⟩ := Piece.kinds_of_append_blank hb hrs
  exact ⟨ps, hps, hkinds.trans hkinds'⟩

end Token

end GoRepl
