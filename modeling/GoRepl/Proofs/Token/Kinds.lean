import GoRepl.Token.Lexer

/-! # The kinds of a source's tokens

What the tokens of a source are does not depend on where they are.

* `Piece.kinds`: the kinds of the tokens of some pieces.
* `Piece.kinds_append`: those of some pieces in front of others.
* `Token.kinds_place`, `Token.ofSource_eq_ok`: they are those of the placed tokens.
* `Piece.kinds_eq`: the end mark comes last and nowhere else.
-/

namespace GoRepl

namespace Piece

/-- The semicolon that is inserted at a line end if a statement may end there. -/
def ended (ends : Bool) : List Kind := if ends then [.newline] else []

/-- The kinds of the tokens of some pieces, with the end mark; `ends` says whether the token before
them may end a statement. -/
def kinds (ends : Bool) : List Piece → List Kind
  | [] => ended ends ++ [.eof]
  | .written kind _ :: ps => kind :: kinds kind.endsStatement ps
  | .newline :: ps => ended ends ++ kinds false ps
  | .blank _ :: ps | .lineComment _ :: ps => kinds ends ps
  | .blockComment text :: ps => if '\n' ∈ text then ended ends ++ kinds false ps else kinds ends ps

/-- The kinds of the tokens of some pieces, and of the semicolons inserted before their end. -/
def front (ends : Bool) : List Piece → List Kind
  | [] => []
  | .written kind _ :: ps => kind :: front kind.endsStatement ps
  | .newline :: ps => ended ends ++ front false ps
  | .blank _ :: ps | .lineComment _ :: ps => front ends ps
  | .blockComment text :: ps => if '\n' ∈ text then ended ends ++ front false ps else front ends ps

/-- Whether a statement may end behind the last token of some pieces, on its line. -/
def endsBehind (ends : Bool) : List Piece → Bool
  | [] => ends
  | .written kind _ :: ps => endsBehind kind.endsStatement ps
  | .newline :: ps => endsBehind false ps
  | .blank _ :: ps | .lineComment _ :: ps => endsBehind ends ps
  | .blockComment text :: ps => if '\n' ∈ text then endsBehind false ps else endsBehind ends ps

theorem kinds_append (ends : Bool) (ps qs : List Piece) :
    kinds ends (ps ++ qs) = front ends ps ++ kinds (endsBehind ends ps) qs := by
  induction ps generalizing ends with
  | nil => rfl
  | cons p ps ih =>
    rw [List.cons_append]
    cases p with
    | newline => rw [kinds, front, endsBehind, ih, List.append_assoc]
    | blank c => rw [kinds, front, endsBehind, ih]
    | lineComment t => rw [kinds, front, endsBehind, ih]
    | written k t => rw [kinds, front, endsBehind, ih, List.cons_append]
    | blockComment t =>
      rw [kinds, front, endsBehind]
      split
      · rw [ih, List.append_assoc]
      · rw [ih]

theorem kinds_eq_front (ends : Bool) (ps : List Piece) :
    kinds ends ps = front ends ps ++ (ended (endsBehind ends ps) ++ [.eof]) := by
  have h := kinds_append ends ps []
  rwa [List.append_nil] at h

/-- Whether a statement may end behind some pieces is up to their last token. -/
theorem endsBehind_eq (ends : Bool) (ps : List Piece) :
    endsBehind ends ps = ((front ends ps).getLast?.map (·.endsStatement)).getD ends := by
  have hended : ∀ ends ks, (((ended ends ++ ks : List Kind).getLast?).map (·.endsStatement)).getD
      ends = (ks.getLast?.map (·.endsStatement)).getD false := by
    intro ends ks
    rw [List.getLast?_append]
    cases hk : ks.getLast? with
    | some k => rfl
    | none => cases ends <;> rfl
  induction ps generalizing ends with
  | nil => rfl
  | cons p ps ih =>
    cases p with
    | newline => rw [endsBehind, front, hended, ih]
    | blank c => rw [endsBehind, front, ih]
    | lineComment t => rw [endsBehind, front, ih]
    | written k t =>
      rw [endsBehind, front, ih, List.getLast?_cons]
      cases (front k.endsStatement ps).getLast? <;> rfl
    | blockComment t =>
      rw [endsBehind, front]
      split
      · rw [hended, ih]
      · rw [ih]

end Piece

namespace Token

theorem map_kind_inserted (ends : Bool) (p : Position) :
    (inserted ends p).map (·.kind) = Piece.ended ends := by
  cases ends <;> rfl

theorem kinds_place (p : Position) (ends : Bool) (ps : List Piece) :
    (place p ends ps).map (·.kind) = Piece.kinds ends ps := by
  induction ps generalizing p ends with
  | nil => rw [place, List.map_append, map_kind_inserted, Piece.kinds, List.map_singleton]
  | cons piece ps ih =>
    cases piece with
    | newline => rw [place, List.map_append, map_kind_inserted, ih, Piece.kinds]
    | blank c => rw [place, ih, Piece.kinds]
    | lineComment text => rw [place, ih, Piece.kinds]
    | written kind text => rw [place, List.map_cons, ih, Piece.kinds]
    | blockComment text =>
      rw [place, Piece.kinds]
      split
      · rw [List.map_append, map_kind_inserted, ih]
      · exact ih ..

theorem ofSource_eq_ok {source : String} {ts : List Token} :
    ofSource source = .ok ts ↔
      ∃ ps, Piece.cut source.toList = .ok ps ∧ place {} false ps = ts := by
  unfold ofSource
  cases Piece.cut source.toList with
  | ok ps => simp
  | error e => simp

theorem map_kind_ofSource {source : String} {ts : List Token} (h : ofSource source = .ok ts) :
    ∃ ps, Piece.cut source.toList = .ok ps ∧ ts.map (·.kind) = Piece.kinds false ps := by
  obtain ⟨ps, hcut, rfl⟩ := ofSource_eq_ok.mp h
  exact ⟨ps, hcut, kinds_place ..⟩

end Token

namespace Piece

/-! ## The first piece -/

theorem quoted_eq_ok {cls : LiteralClass} {c : Char} {close? : Option (List Char)}
    {fault : LexFault} {p : Piece} : quoted cls c close? fault = .ok p ↔
      ∃ t, close? = some t ∧ p = written (.literal cls (String.ofList (c :: t))) (c :: t) := by
  unfold quoted
  cases close? with
  | none => simp
  | some t => simp [eq_comm]

/-- The pieces that a source `c :: r` may begin with, by what they are. -/
inductive Begins : Char → List Char → Piece → Prop
  | newline {r : List Char} : Begins '\n' r newline
  | blank {c : Char} {r : List Char} : Begins c r (blank c)
  | lineComment {r : List Char} :
      Begins '/' r (lineComment ('/' :: r.takeWhile (· ≠ '\n')))
  | blockComment {r t : List Char} (mark : r.head? = some '*')
      (close : throughCommentEnd r.tail = some t) : Begins '/' r (blockComment ('/' :: '*' :: t))
  | quoted (cls : LiteralClass) (q : Char) {r t : List Char} (close : throughQuote q r = some t) :
      Begins q r (written (.literal cls (String.ofList (q :: t))) (q :: t))
  | raw {r t : List Char} (close : throughBackQuote r = some t) :
      Begins '\x60' r (written (.literal .string (String.ofList ('\x60' :: t))) ('\x60' :: t))
  | number {c : Char} {r t : List Char} {cls : LiteralClass}
      (text : Number.read (c :: r) = .ok (cls, t)) :
      Begins c r (written (.literal cls (String.ofList t)) t)
  | word {c : Char} {r t : List Char} (text : t = c :: r.takeWhile Number.isWordChar)
      (starts : startsWord c = true) :
      Begins c r (written (Kind.ofWord (String.ofList t)) t)
  | symbol {c : Char} {r : List Char} {s : Symbol} (spelling : Symbol.read? (c :: r) = some s) :
      Begins c r (written (.symbol s) s.chars)

theorem begins_of_first {c : Char} {r : List Char} {p : Piece} (h : first c r = .ok p) :
    Begins c r p := by
  unfold first at h
  by_cases hnewline : c = '\n'
  · rw [if_pos hnewline] at h
    cases h
    exact hnewline ▸ .newline
  rw [if_neg hnewline] at h
  by_cases hblank : c = ' ' ∨ c = '\t' ∨ c = '\r'
  · rw [if_pos hblank] at h
    cases h
    exact .blank
  rw [if_neg hblank] at h
  by_cases hline : c = '/' ∧ r.head? = some '/'
  · rw [if_pos hline] at h
    cases h
    exact hline.1 ▸ .lineComment
  rw [if_neg hline] at h
  by_cases hblock : c = '/' ∧ r.head? = some '*'
  · rw [if_pos hblock] at h
    cases hclose : throughCommentEnd r.tail with
    | none =>
      rw [hclose] at h
      cases h
    | some t =>
      rw [hclose] at h
      cases h
      exact hblock.1 ▸ .blockComment hblock.2 hclose
  rw [if_neg hblock] at h
  by_cases hstring : c = '"'
  · rw [if_pos hstring] at h
    obtain ⟨t, ht, rfl⟩ := quoted_eq_ok.mp h
    exact .quoted .string c ht
  rw [if_neg hstring] at h
  by_cases hrune : c = '\''
  · rw [if_pos hrune] at h
    obtain ⟨t, ht, rfl⟩ := quoted_eq_ok.mp h
    exact .quoted .rune c ht
  rw [if_neg hrune] at h
  by_cases hraw : c = '\x60'
  · rw [if_pos hraw] at h
    obtain ⟨t, ht, rfl⟩ := quoted_eq_ok.mp h
    exact hraw ▸ .raw ht
  rw [if_neg hraw] at h
  by_cases hnumber : startsNumber c r = true
  · rw [if_pos hnumber] at h
    cases hread : Number.read (c :: r) with
    | error e =>
      rw [hread] at h
      cases h
    | ok read =>
      rw [hread] at h
      cases h
      exact .number hread
  rw [if_neg hnumber] at h
  by_cases hword : startsWord c = true
  · rw [if_pos hword] at h
    cases h
    exact .word rfl hword
  rw [if_neg hword] at h
  cases hread : Symbol.read? (c :: r) with
  | none =>
    rw [hread] at h
    cases h
  | some s =>
    rw [hread] at h
    cases h
    exact .symbol hread

theorem first_lineComment {r : List Char} (mark : r.head? = some '/') :
    first '/' r = .ok (lineComment ('/' :: r.takeWhile (· ≠ '\n'))) := by
  unfold first
  rw [if_neg (by decide), if_neg (by decide), if_pos ⟨rfl, mark⟩]

theorem first_blockComment_eq {r : List Char} (mark : r.head? = some '*') : first '/' r =
    (throughCommentEnd r.tail).elim (.error .unterminatedComment)
      fun t => .ok (blockComment ('/' :: '*' :: t)) := by
  have hline : ¬('/' = '/' ∧ r.head? = some '/') := fun h => by
    rw [mark] at h
    cases h.2
  unfold first
  rw [if_neg (by decide), if_neg (by decide), if_neg hline, if_pos ⟨rfl, mark⟩]
  cases throughCommentEnd r.tail with
  | none => rfl
  | some t => rfl

theorem first_blockComment {r : List Char} {p : Piece} (mark : r.head? = some '*') :
    first '/' r = .ok p ↔
      ∃ t, throughCommentEnd r.tail = some t ∧ p = blockComment ('/' :: '*' :: t) := by
  rw [first_blockComment_eq mark]
  cases throughCommentEnd r.tail with
  | none => simp
  | some t => simp [eq_comm]

theorem first_raw_eq (r : List Char) : first '\x60' r =
    quoted .string '\x60' (throughBackQuote r) .unterminatedRawString := by
  unfold first
  rw [if_neg (by decide), if_neg (by decide), if_neg fun h => absurd h.1 (by decide),
    if_neg fun h => absurd h.1 (by decide), if_neg (by decide), if_neg (by decide), if_pos rfl]

theorem first_raw {r : List Char} {p : Piece} : first '\x60' r = .ok p ↔
    ∃ t, throughBackQuote r = some t ∧
      p = written (.literal .string (String.ofList ('\x60' :: t))) ('\x60' :: t) := by
  rw [first_raw_eq]
  exact quoted_eq_ok

theorem cut_of_first {c : Char} {r : List Char} {p : Piece} {ps : List Piece}
    (hf : first c r = .ok p) (h : cut (r.drop (p.text.length - 1)) = .ok ps) :
    cut (c :: r) = .ok (p :: ps) := by
  rw [cut]
  simp only [hf, h]

/-! ## The end mark -/

theorem ne_eof_of_ended {ends : Bool} {k : Kind} (h : k ∈ ended ends) : k ≠ .eof := by
  unfold ended at h
  split at h
  · rw [List.mem_singleton.mp h]
    exact nofun
  · cases h

theorem ofWord_ne_eof (word : String) : Kind.ofWord word ≠ .eof := by
  unfold Kind.ofWord
  split <;> exact nofun

theorem kind_ne_eof_of_first {c : Char} {r : List Char} {kind : Kind} {text : List Char}
    (h : first c r = .ok (written kind text)) : kind ≠ .eof := by
  cases begins_of_first h with
  | quoted | raw | number | symbol => exact nofun
  | word => exact ofWord_ne_eof _

theorem cut_cons {c : Char} {r : List Char} {ps : List Piece} (h : cut (c :: r) = .ok ps) :
    ∃ p ps', first c r = .ok p ∧ cut (r.drop (p.text.length - 1)) = .ok ps' ∧ ps = p :: ps' := by
  rw [cut] at h
  cases hf : first c r with
  | error e =>
    rw [hf] at h
    cases h
  | ok p =>
    simp only [hf] at h
    cases hc : cut (r.drop (p.text.length - 1)) with
    | error e =>
      simp only [hc] at h
      cases h
    | ok ps' =>
      simp only [hc] at h
      cases h
      exact ⟨p, ps', rfl, hc, rfl⟩

/-- Every piece of a source is the first one of what follows in front of it. -/
theorem exists_first_of_mem {cs : List Char} {ps : List Piece} (h : cut cs = .ok ps) {p : Piece}
    (hp : p ∈ ps) : ∃ c r, first c r = .ok p := by
  induction cs using cut.induct generalizing ps with
  | case1 =>
    rw [cut] at h
    cases h
    cases hp
  | case2 c r e hf =>
    obtain ⟨p', ps', hf', -⟩ := cut_cons h
    rw [hf] at hf'
    cases hf'
  | case3 c r p' hf ps' hc ih =>
    obtain ⟨p'', ps'', hf', hc', rfl⟩ := cut_cons h
    cases hf.symm.trans hf'
    rcases List.mem_cons.mp hp with rfl | hp
    · exact ⟨c, r, hf⟩
    · exact ih hc' hp
  | case4 c r p' hf ps' e hc ih =>
    obtain ⟨p'', ps'', hf', hc', rfl⟩ := cut_cons h
    cases hf.symm.trans hf'
    rw [hc] at hc'
    cases hc'

theorem kind_ne_eof_of_cut {cs : List Char} {ps : List Piece} (h : cut cs = .ok ps) :
    ∀ k t, written k t ∈ ps → k ≠ .eof := by
  intro k t ht
  obtain ⟨c, r, hf⟩ := exists_first_of_mem h ht
  exact kind_ne_eof_of_first hf

/-- The end mark closes the kinds, and stands nowhere else. -/
theorem kinds_eq {ps : List Piece} (h : ∀ k t, written k t ∈ ps → k ≠ .eof) (ends : Bool) :
    ∃ ks, kinds ends ps = ks ++ [.eof] ∧ ∀ k ∈ ks, k ≠ .eof := by
  induction ps generalizing ends with
  | nil => exact ⟨ended ends, rfl, fun k hk => ne_eof_of_ended hk⟩
  | cons p ps ih =>
    have htail : ∀ ends, ∃ ks, kinds ends ps = ks ++ [.eof] ∧ ∀ k ∈ ks, k ≠ .eof :=
      ih fun k t hk => h k t (.tail _ hk)
    have hafter : ∃ ks, ended ends ++ kinds false ps = ks ++ [.eof] ∧ ∀ k ∈ ks, k ≠ .eof := by
      obtain ⟨ks, he, hks⟩ := htail false
      refine ⟨ended ends ++ ks, by rw [he, List.append_assoc], fun k hk => ?_⟩
      exact (List.mem_append.mp hk).elim ne_eof_of_ended (hks k)
    cases p with
    | newline => exact hafter
    | blank c => exact htail ends
    | lineComment t => exact htail ends
    | blockComment t =>
      rw [kinds]
      split
      · exact hafter
      · exact htail ends
    | written k t =>
      obtain ⟨ks, he, hks⟩ := htail k.endsStatement
      refine ⟨k :: ks, by rw [kinds, he, List.cons_append], ?_⟩
      exact List.forall_mem_cons.mpr ⟨h k t (.head _), hks⟩

end Piece

/-- The tokens of a source end with the end mark, and it stands nowhere else. -/
theorem Token.ofSource_eof {source : String} {ts : List Token} (h : ofSource source = .ok ts) :
    ∃ zs t, ts = zs ++ [t] ∧ t.kind = .eof ∧ ∀ z ∈ zs, z.kind ≠ .eof := by
  obtain ⟨ps, hcut, hkinds⟩ := map_kind_ofSource h
  obtain ⟨ks, hks, hne⟩ := Piece.kinds_eq (Piece.kind_ne_eof_of_cut hcut) false
  obtain ⟨zs, es, rfl, hzs, hes⟩ := List.map_eq_append_iff.mp (hkinds.trans hks)
  obtain ⟨t, rfl, ht⟩ := List.map_eq_singleton_iff.mp hes
  exact ⟨zs, t, rfl, ht, fun z hz => hne _ (hzs ▸ List.mem_map_of_mem hz)⟩

end GoRepl
