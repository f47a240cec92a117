import GoRepl.Proofs.Program.Placement
import GoRepl.Proofs.Token.LineEnd

/-! # Tokens behind indents

The lines of an entry stand behind an indent in the program.  A line end separates tokens whatever
blanks follow it, except inside a raw string, which keeps the indent.

* `Layout.relaid`, `Layout.laid`: a text, and all its closed lines, with the indent behind each line
  end.
* `Piece.Scans.of_laid`: the ends of comments and raw strings are found behind indents, too.
* `Piece.Relays`, `Piece.cut_laid`: the kinds of a source that is laid out, one lemma for each sort
  of piece.
* `Program.tokens_of_mem`: the tokens of an entry in its program.
-/

namespace GoRepl

namespace Layout

variable (indent : List Char)

/-- A text whose lines, from the second one on, stand behind the indent. -/
def relaid : List Char → List Char
  | [] => []
  | '\n' :: r => '\n' :: (indent ++ relaid r)
  | '\r' :: '\n' :: r => '\n' :: (indent ++ relaid r)
  | c :: r => c :: relaid r

/-- The lines of a text, all of them closed, without the indent of the first one. -/
def laid : List Char → List Char
  | [] => ['\n']
  | '\n' :: r => '\n' :: if r.isEmpty then [] else indent ++ laid r
  | '\r' :: '\n' :: r => '\n' :: if r.isEmpty then [] else indent ++ laid r
  | c :: r => c :: laid r

variable {indent} {c : Char} {r s t : List Char}

theorem laid_cons (hn : c ≠ '\n') (hr : c = '\r' → r.head? ≠ some '\n') :
    laid indent (c :: r) = c :: laid indent r := by
  refine laid.eq_4 _ c r hn fun s hc hs => hr hc ?_
  rw [hs]
  rfl

theorem laid_feed (h : r ≠ []) : laid indent ('\n' :: r) = '\n' :: (indent ++ laid indent r) := by
  rw [laid, if_neg (by simpa using h)]

theorem laid_returned (h : r ≠ []) :
    laid indent ('\r' :: '\n' :: r) = '\n' :: (indent ++ laid indent r) := by
  rw [laid, if_neg (by simpa using h)]

theorem relaid_cons (hn : c ≠ '\n') (hr : c = '\r' → r.head? ≠ some '\n') :
    relaid indent (c :: r) = c :: relaid indent r := by
  refine relaid.eq_4 _ c r hn fun s hc hs => hr hc ?_
  rw [hs]
  rfl

theorem laid_cons_of_ne (hn : c ≠ '\n') (hr : c ≠ '\r') :
    laid indent (c :: r) = c :: laid indent r := laid_cons hn fun h => absurd h hr

theorem relaid_cons_of_ne (hn : c ≠ '\n') (hr : c ≠ '\r') :
    relaid indent (c :: r) = c :: relaid indent r := relaid_cons hn fun h => absurd h hr

theorem relaid_of_inline (h : '\n' ∉ t) : relaid indent t = t := by
  induction t with
  | nil => rfl
  | cons c t ih =>
    obtain ⟨hc, ht⟩ := not_or.mp (List.mem_cons.not.mp h)
    rw [relaid_cons (Ne.symm hc) fun _ hhead => ht (List.mem_of_head? hhead), ih ht]

/-- A text that does not end within a line end is laid out before what follows. -/
theorem laid_append (hn : t.getLast? ≠ some '\n')
    (hr : t.getLast? = some '\r' → s.head? ≠ some '\n') :
    laid indent (t ++ s) = relaid indent t ++ laid indent s := by
  induction t using relaid.induct with
  | case1 => rfl
  | case2 r ih =>
    obtain ⟨d, r, rfl⟩ := List.exists_cons_of_ne_nil fun he : r = [] => hn (he ▸ rfl)
    rw [List.getLast?_cons_cons] at hn hr
    rw [List.cons_append, laid_feed (by simp), relaid, ih hn hr, List.cons_append,
      List.append_assoc]
  | case3 r ih =>
    obtain ⟨d, r, rfl⟩ := List.exists_cons_of_ne_nil fun he : r = [] => hn (he ▸ rfl)
    rw [List.getLast?_cons_cons, List.getLast?_cons_cons] at hn hr
    rw [List.cons_append, List.cons_append, laid_returned (by simp), relaid, ih hn hr,
      List.cons_append, List.append_assoc]
  | case4 c r hc hcr ih =>
    have hr' : c = '\r' → r.head? ≠ some '\n' := fun h hhead => by
      obtain ⟨u, rfl⟩ := List.head?_eq_some_iff.mp hhead
      exact hcr u h rfl
    rw [relaid_cons hc hr', List.cons_append]
    cases r with
    | nil => exact laid_cons hc fun h => hr (congrArg some h)
    | cons d r =>
      rw [List.getLast?_cons_cons] at hn hr
      have hhead : c = '\r' → (d :: r ++ s).head? ≠ some '\n' := hr'
      rw [laid_cons hc hhead, ih hn hr, List.cons_append]

theorem flatMap_linesOf (h : s ≠ []) :
    ((Text.linesOf s).flatMap fun l => indent ++ l ++ ['\n']) = indent ++ laid indent s := by
  induction s using Text.linesOf.induct with
  | case1 => exact absurd rfl h
  | case2 r ih | case3 r ih =>
    rw [Text.linesOf, laid, List.flatMap_cons, List.append_nil, List.append_assoc]
    cases r with
    | nil => rfl
    | cons d r =>
      rw [ih (List.cons_ne_nil d r)]
      rfl
  | case4 c r hc hcr hr ih =>
    obtain rfl := Text.linesOf_eq_nil.mp hr
    rw [Text.linesOf.eq_4 c [] hc hcr, laid.eq_4 _ c [] hc hcr]
    simp [Text.linesOf, laid]
  | case5 c r hc hcr l ls hr ih =>
    have hne : r ≠ [] := fun he => by
      rw [Text.linesOf_eq_nil.mpr he] at hr
      cases hr
    have hrest := ih hne
    rw [hr, List.flatMap_cons, List.append_assoc, List.append_assoc] at hrest
    rw [Text.linesOf.eq_4 c r hc hcr, hr, laid.eq_4 _ c r hc hcr, ← List.append_cancel_left hrest]
    simp

/-- The closed lines of a text behind an indent. -/
theorem toList_unlines_indented (indent text : String) :
    (Text.unlines (indented indent text)).toList =
      indent.toList ++ laid indent.toList text.toList := by
  rw [Text.toList_unlines, indented_eq]
  split
  · rename_i h
    rw [h]
    simp [laid]
  · rename_i h
    have hne : text.toList ≠ [] := fun he => h (String.toList_eq_nil_iff.mp he)
    rw [Text.lines, ← flatMap_linesOf hne]
    simp [List.flatMap_map]

theorem exists_lineEnd (cs : List Char) : ∃ x y, cs = x ++ y ∧ LineEnd y ∧ '\n' ∉ x ∧
    (x.getLast? = some '\r' → y.head? ≠ some '\n') := by
  induction cs using relaid.induct with
  | case1 => exact ⟨[], [], rfl, .finish, List.not_mem_nil, nofun⟩
  | case2 r => exact ⟨[], _, rfl, .feed r, List.not_mem_nil, nofun⟩
  | case3 r => exact ⟨[], _, rfl, .returned r, List.not_mem_nil, nofun⟩
  | case4 c r hc hcr ih =>
    obtain ⟨x, y, rfl, hy, hx, hxy⟩ := ih
    refine ⟨c :: x, y, rfl, hy, ?_, fun h hhead => ?_⟩
    · exact fun h => (List.mem_cons.mp h).elim (fun he => hc he.symm) hx
    · cases x with
      | nil =>
        obtain ⟨s, rfl⟩ := List.head?_eq_some_iff.mp hhead
        cases h
        exact hcr s rfl rfl
      | cons d x => exact hxy (List.getLast?_cons_cons ▸ h) hhead

theorem laid_inline {u x y : List Char} (hx : '\n' ∉ x)
    (hxy : x.getLast? = some '\r' → y.head? ≠ some '\n') (hu : u <:+ x) :
    laid indent (u ++ y) = u ++ laid indent y := by
  have hn : '\n' ∉ u := fun h => hx (hu.subset h)
  have hlast : u.getLast? = some '\r' → y.head? ≠ some '\n' := fun h => hxy <| by
    obtain ⟨v, rfl⟩ := hu
    rw [List.getLast?_append, h]
    rfl
  rw [laid_append (fun h => hn (List.mem_of_getLast? h)) hlast, relaid_of_inline hn]

theorem lineEnd_laid (h : LineEnd s) : LineEnd (laid indent s) := by
  cases h with
  | finish => exact .feed []
  | feed r => rw [laid]; exact .feed _
  | returned r => rw [laid]; exact .feed _

theorem head?_laid {d : Char} (hn : d ≠ '\n') (hr : d ≠ '\r') :
    (laid indent s).head? = some d ↔ s.head? = some d := by
  induction s using laid.induct with
  | case1 => simp [laid, hn.symm]
  | case2 r => simp [laid, hn.symm]
  | case3 r => simp [laid, hn.symm, hr.symm]
  | case4 c r hc hcr => rw [laid.eq_4 _ c r hc hcr]; rfl

theorem dropWhile_laid : (laid indent s).dropWhile (· ≠ '\n') =
    laid indent (s.dropWhile (· ≠ '\n')) := by
  induction s using laid.induct with
  | case1 => simp [laid]
  | case2 r => simp [laid]
  | case3 r => simp [laid]
  | case4 c r hc hcr ih =>
    rw [laid.eq_4 _ c r hc hcr]
    have hne : (decide (c ≠ '\n')) = true := by simpa using hc
    simp only [List.dropWhile_cons, hne, if_true]
    exact ih

theorem drop_takeWhile (f : Char → Bool) (s : List Char) :
    s.drop (s.takeWhile f).length = s.dropWhile f := by
  induction s with
  | nil => rfl
  | cons c s ih => cases h : f c <;> simp [h, ih]

/-- A text that ends in neither half of a line end is laid out before the rest. -/
theorem laid_eq_append {d : Char} (hpre : t <+: s) (hlast : t.getLast? = some d) (hn : d ≠ '\n')
    (hr : d ≠ '\r') : laid indent s = relaid indent t ++ laid indent (s.drop t.length) := by
  obtain ⟨u, rfl⟩ := hpre
  rw [List.drop_left]
  refine laid_append ?_ fun h => ?_
  · rw [hlast]
    exact fun h => hn (Option.some.inj h)
  · rw [hlast] at h
    exact absurd (Option.some.inj h) hr

theorem newline_mem_relaid : '\n' ∈ relaid indent t ↔ '\n' ∈ t := by
  constructor
  · intro h
    by_contra hn
    rw [relaid_of_inline hn] at h
    exact hn h
  · induction t using relaid.induct with
    | case1 => exact id
    | case2 r | case3 r => exact fun _ => .head _
    | case4 c r hc hcr ih =>
      rw [relaid.eq_4 _ c r hc hcr]
      exact fun h => (List.mem_cons.mp h).elim (fun he => absurd he.symm hc) fun h => .tail _ (ih h)

end Layout

namespace Piece

open Layout

variable {indent : List Char} {r s t : List Char}

/-- A scan for an end mark: it goes on behind line ends and tabs, and what else it does with a
character does not depend on how the rest is laid out. -/
structure Scans (indent : List Char) (f : List Char → Option (List Char)) : Prop where
  nil : f [] = none
  blank : ∀ c r, c = '\n' ∨ c = '\r' ∨ c = '\t' → f (c :: r) = (f r).map (c :: ·)
  other : ∀ c r, c ≠ '\n' → (c = '\r' → r.head? ≠ some '\n') →
    (f (c :: r) = (f r).map (c :: ·) ∧
      f (c :: laid indent r) = (f (laid indent r)).map (c :: ·)) ∨
    ∃ mark, '\n' ∉ mark ∧ f (c :: r) = some mark ∧ f (c :: laid indent r) = some mark
  front : ∀ r t, f r = some t → t <+: r

namespace Scans

variable {f : List Char → Option (List Char)} (hf : Scans indent f)
  (hi : ∀ c ∈ indent, c = '\t')

include hf hi

theorem tabs : f (indent ++ s) = (f s).map (indent ++ ·) := by
  have happ : ∀ tabs : List Char, (∀ c ∈ tabs, c = '\t') →
      f (tabs ++ s) = (f s).map (tabs ++ ·) := by
    intro tabs htabs
    induction tabs with
    | nil => simp
    | cons c tabs ih =>
      obtain ⟨hc, htabs⟩ := List.forall_mem_cons.mp htabs
      rw [List.cons_append, hf.blank _ _ (.inr (.inr hc)), ih htabs, Option.map_map]
      rfl
  exact happ indent hi

theorem feed (h : f r = some s) (ih : f (laid indent r) = some t) :
    f ('\n' :: if r.isEmpty then [] else indent ++ laid indent r) =
      some ('\n' :: (indent ++ t)) := by
  cases r with
  | nil =>
    rw [hf.nil] at h
    cases h
  | cons c r =>
    rw [if_neg (by simp), hf.blank _ _ (.inl rfl), hf.tabs hi, ih]
    rfl

/-- The scan finds the mark in the lines behind indents, too. -/
theorem of_laid (h : f r = some t) : f (laid indent r) = some (relaid indent t) := by
  induction r using laid.induct generalizing t with
  | case1 =>
    rw [hf.nil] at h
    cases h
  | case2 r ih =>
    rw [hf.blank _ _ (.inl rfl)] at h
    obtain ⟨t, ht, rfl⟩ := Option.map_eq_some_iff.mp h
    exact hf.feed hi ht (ih ht)
  | case3 r ih =>
    rw [hf.blank _ _ (.inr (.inl rfl)), hf.blank _ _ (.inl rfl), Option.map_map] at h
    obtain ⟨t, ht, rfl⟩ := Option.map_eq_some_iff.mp h
    exact hf.feed hi ht (ih ht)
  | case4 c r hc hcr ih =>
    have hr : c = '\r' → r.head? ≠ some '\n' := fun he hhead => by
      obtain ⟨u, rfl⟩ := List.head?_eq_some_iff.mp hhead
      exact hcr u he rfl
    rw [laid_cons hc hr]
    obtain ⟨hown, hlaid⟩ | ⟨mark, hmark, hown, hlaid⟩ := hf.other c r hc hr
    · rw [hown] at h
      obtain ⟨t, ht, rfl⟩ := Option.map_eq_some_iff.mp h
      have hr' : c = '\r' → t.head? ≠ some '\n' := fun he hhead => by
        obtain ⟨u, hu⟩ := hf.front r t ht
        refine hr he ?_
        rw [← hu, List.head?_append, hhead]
        rfl
      rw [hlaid, ih ht, relaid_cons hc hr']
      rfl
    · rw [hown] at h
      cases h
      rw [hlaid, relaid_of_inline hmark]

end Scans

theorem scans_throughBackQuote : Scans indent throughBackQuote where
  nil := rfl
  blank c r hc := throughBackQuote_cons (by rcases hc with rfl | rfl | rfl <;> decide)
  other c r hn hr := by
    by_cases hc : c = '\x60'
    · subst hc
      exact .inr ⟨['\x60'], by decide, rfl, rfl⟩
    · exact .inl ⟨throughBackQuote_cons hc, throughBackQuote_cons hc⟩
  front r t h := (throughBackQuote_front h).1

theorem scans_throughCommentEnd : Scans indent throughCommentEnd where
  nil := rfl
  blank c r hc := throughCommentEnd_cons fun h => by rcases hc with rfl | rfl | rfl <;> cases h
  other c r hn hr := by
    by_cases hc : c = '*' ∧ r.head? = some '/'
    · obtain ⟨rfl, hhead⟩ := hc
      obtain ⟨u, rfl⟩ := List.head?_eq_some_iff.mp hhead
      rw [laid_cons_of_ne (by decide) (by decide)]
      exact .inr ⟨['*', '/'], by decide, rfl, rfl⟩
    · refine .inl ⟨throughCommentEnd_cons fun h hhead => hc ⟨h, hhead⟩, ?_⟩
      refine throughCommentEnd_cons fun h hhead => hc ⟨h, ?_⟩
      exact (head?_laid (by decide) (by decide)).mp hhead
  front r t h := (throughCommentEnd_front h).1

end Piece

/-- A literal whose lines, from the second one on, stand behind the indent. -/
def Kind.relaid (indent : List Char) : Kind → Kind
  | .literal cls text => .literal cls (String.ofList (Layout.relaid indent text.toList))
  | k => k

namespace Kind

variable {indent : List Char}

theorem map_relaid_ended (ends : Bool) :
    (Piece.ended ends).map (relaid indent) = Piece.ended ends := by
  cases ends <;> rfl

end Kind

namespace Piece

open Layout

variable {indent : List Char} {c : Char} {r cs : List Char} {p : Piece} {ps : List Piece}

/-- The source has the kinds of `ps`, but for literals of several lines. -/
def Relays (indent cs : List Char) (ps : List Piece) : Prop :=
  ∃ ps', cut cs = .ok ps' ∧ ∀ ends, kinds ends ps' = (kinds ends ps).map (Kind.relaid indent)

namespace Relays

theorem tabs (hi : ∀ c ∈ indent, c = '\t') {i : List Char} (h : Relays i cs ps) :
    Relays i (indent ++ cs) ps := by
  induction indent with
  | nil => exact h
  | cons c indent ih =>
    obtain ⟨rfl, hi'⟩ := List.forall_mem_cons.mp hi
    obtain ⟨ps', hcut, hkinds⟩ := ih hi'
    exact ⟨blank '\t' :: ps', cut_of_first rfl hcut, hkinds⟩

theorem newline (hi : ∀ c ∈ indent, c = '\t') (hcut : cut r = .ok ps)
    (h : Relays indent (laid indent r) ps) :
    Relays indent (laid indent ('\n' :: r)) (newline :: ps) := by
  have hnewline : ∀ {cs ps}, Relays indent cs ps →
      Relays indent ('\n' :: cs) (Piece.newline :: ps) := by
    rintro cs ps ⟨ps', hcut, hkinds⟩
    refine ⟨.newline :: ps', cut_of_first rfl hcut, fun ends => ?_⟩
    rw [kinds, kinds, List.map_append, Kind.map_relaid_ended, hkinds]
  by_cases hr : r = []
  · subst hr
    rw [cut] at hcut
    cases hcut
    have hnil : Relays indent [] [] := ⟨[], cut.eq_1, fun ends => by cases ends <;> rfl⟩
    exact hnewline hnil
  · rw [laid_feed hr]
    exact hnewline (h.tabs hi)

theorem lineComment (hc : r.head? = some '/')
    (h : Relays indent (laid indent (r.dropWhile (· ≠ '\n'))) ps) (t : List Char) :
    Relays indent (laid indent ('/' :: r)) (lineComment t :: ps) := by
  obtain ⟨ps', hcut, hkinds⟩ := h
  have hhead : (laid indent r).head? = some '/' := (head?_laid (by decide) (by decide)).mpr hc
  rw [laid_cons_of_ne (by decide) (by decide)]
  refine ⟨.lineComment _ :: ps', cut_of_first (first_lineComment hhead) ?_, hkinds⟩
  rw [text, List.length_cons, Nat.add_sub_cancel, drop_takeWhile, dropWhile_laid, hcut]

theorem blockComment {t : List Char} (hi : ∀ c ∈ indent, c = '\t')
    (ht : throughCommentEnd r = some t) (h : Relays indent (laid indent (r.drop t.length)) ps) :
    Relays indent (laid indent ('/' :: '*' :: r)) (blockComment ('/' :: '*' :: t) :: ps) := by
  obtain ⟨ps', hcut, hkinds⟩ := h
  obtain ⟨hpre, hlast⟩ := throughCommentEnd_front ht
  have hlaid : laid indent r = relaid indent t ++ laid indent (r.drop t.length) :=
    laid_eq_append hpre hlast (by decide) (by decide)
  rw [laid_cons_of_ne (by decide) (by decide), laid_cons_of_ne (by decide) (by decide)]
  refine ⟨.blockComment ('/' :: '*' :: relaid indent t) :: ps',
    cut_of_first ((first_blockComment rfl).mpr ⟨_, scans_throughCommentEnd.of_laid hi ht, rfl⟩) ?_,
    fun ends => ?_⟩
  · rw [hlaid]
    change cut ((relaid indent t ++ _).drop (relaid indent t).length) = _
    rw [List.drop_left, hcut]
  · have hfeed : ('\n' ∈ '/' :: '*' :: relaid indent t) ↔ '\n' ∈ '/' :: '*' :: t := by
      simp [newline_mem_relaid]
    simp only [kinds, hfeed]
    split
    · rw [List.map_append, Kind.map_relaid_ended, hkinds]
    · exact hkinds ends

theorem raw {t : List Char} (hi : ∀ c ∈ indent, c = '\t') (ht : throughBackQuote r = some t)
    (h : Relays indent (laid indent (r.drop t.length)) ps) :
    Relays indent (laid indent ('\x60' :: r))
      (written (.literal .string (String.ofList ('\x60' :: t))) ('\x60' :: t) :: ps) := by
  obtain ⟨ps', hcut, hkinds⟩ := h
  obtain ⟨hpre, hlast⟩ := throughBackQuote_front ht
  have hlaid : laid indent r = relaid indent t ++ laid indent (r.drop t.length) :=
    laid_eq_append hpre hlast (by decide) (by decide)
  rw [laid_cons_of_ne (by decide) (by decide)]
  refine ⟨written _ ('\x60' :: relaid indent t) :: ps',
    cut_of_first (first_raw.mpr ⟨_, scans_throughBackQuote.of_laid hi ht, rfl⟩) ?_, fun ends => ?_⟩
  · rw [hlaid]
    change cut ((relaid indent t ++ _).drop (relaid indent t).length) = _
    rw [List.drop_left, hcut]
  · rw [kinds, kinds, List.map_cons, hkinds, Kind.relaid, String.toList_ofList,
      relaid_cons_of_ne (by decide) (by decide)]
    rfl

theorem kinds_inline (hf : first c r = .ok p) (hp : '\n' ∉ p.text) {ps' : List Piece}
    (h : ∀ ends, kinds ends ps' = (kinds ends ps).map (Kind.relaid indent)) (ends : Bool) :
    kinds ends (p :: ps') = (kinds ends (p :: ps)).map (Kind.relaid indent) := by
  have hwritten : ∀ {k : Kind} {t : List Char}, k.relaid indent = k →
      kinds ends (written k t :: ps') =
        (kinds ends (written k t :: ps)).map (Kind.relaid indent) := by
    intro k t hk
    rw [kinds, kinds, List.map_cons, h, hk]
  have hliteral : ∀ {cls : LiteralClass} {t : List Char}, '\n' ∉ t →
      (Kind.literal cls (String.ofList t)).relaid indent = .literal cls (String.ofList t) := by
    intro cls t ht
    rw [Kind.relaid, String.toList_ofList, relaid_of_inline ht]
  cases begins_of_first hf with
  | newline => exact absurd (.head _) hp
  | blank | lineComment => exact h ends
  | blockComment mark close =>
    rw [text] at hp
    rw [kinds, kinds, if_neg hp, if_neg hp, h]
  | quoted | raw | number => exact hwritten (hliteral hp)
  | word text =>
    refine hwritten ?_
    unfold Kind.ofWord
    split <;> rfl
  | symbol => exact hwritten rfl

/-- All other pieces end before their line does. -/
theorem inline (hn : c ≠ '\n') (hr : c = '\r' → r.head? ≠ some '\n')
    (hline : ¬(c = '/' ∧ r.head? = some '/')) (hblock : ¬(c = '/' ∧ r.head? = some '*'))
    (hraw : c ≠ '\x60') (hf : first c r = .ok p)
    (h : Relays indent (laid indent (r.drop (p.text.length - 1))) ps) :
    Relays indent (laid indent (c :: r)) (p :: ps) := by
  obtain ⟨ps', hcut, hkinds⟩ := h
  obtain ⟨x, y, rfl, hy, hx, hxy⟩ := exists_lineEnd r
  rw [hy.boundary.head?_append (by decide)] at hline hblock
  have hfirst := first_append hy hline hblock hraw
  have hfirst' : first c (x ++ laid indent y) = first c x :=
    first_append (lineEnd_laid hy) hline hblock hraw
  have hpre := first_front (hfirst ▸ hf)
  have hp : '\n' ∉ p.text := fun hmem =>
    (List.mem_cons.mp (hpre.subset hmem)).elim (fun he => hn he.symm) hx
  have hlen : p.text.length - 1 ≤ x.length := by
    have := hpre.length_le
    rw [List.length_cons] at this
    omega
  rw [List.drop_append_of_le_length hlen, laid_inline hx hxy (List.drop_suffix ..)] at hcut
  rw [laid_cons hn hr, laid_inline hx hxy (List.suffix_refl x)]
  refine ⟨p :: ps', cut_of_first (hfirst'.trans (hfirst ▸ hf)) ?_, kinds_inline hf hp hkinds⟩
  rw [List.drop_append_of_le_length hlen, hcut]

end Relays

/-- Behind indents a source has its own kinds, but for literals of several lines. -/
theorem cut_laid (hi : ∀ c ∈ indent, c = '\t') (h : cut cs = .ok ps) :
    Relays indent (laid indent cs) ps := by
  -- along the cutting: behind the first piece is a source with fewer pieces; only the pieces that
  -- may reach over a line end need an argument of their own
  induction cs using cut.induct generalizing ps with
  | case1 =>
    rw [cut] at h
    cases h
    exact ⟨[.newline], cut_of_first rfl cut.eq_1, fun ends => by cases ends <;> rfl⟩
  | case2 c r e hf =>
    obtain ⟨p, ps', hf', -⟩ := cut_cons h
    rw [hf] at hf'
    cases hf'
  | case4 c r p hf ps' e hc ih =>
    obtain ⟨p', ps'', hf', hc', rfl⟩ := cut_cons h
    cases hf.symm.trans hf'
    rw [hc] at hc'
    cases hc'
  | case3 c r p hf ps' hc ih =>
    obtain ⟨p', ps'', hf', hc', rfl⟩ := cut_cons h
    cases hf.symm.trans hf'
    have hrest := ih hc'
    by_cases hn : c = '\n'
    · subst hn
      cases hf
      exact .newline hi hc' hrest
    by_cases hr : c = '\r' ∧ r.head? = some '\n'
    · obtain ⟨rfl, hhead⟩ := hr
      obtain ⟨s, rfl⟩ := List.head?_eq_some_iff.mp hhead
      cases hf
      exact hrest
    by_cases hline : c = '/' ∧ r.head? = some '/'
    · obtain ⟨rfl, hhead⟩ := hline
      cases hf.symm.trans (first_lineComment hhead)
      refine .lineComment hhead ?_ _
      rwa [text, List.length_cons, Nat.add_sub_cancel, drop_takeWhile] at hrest
    by_cases hblock : c = '/' ∧ r.head? = some '*'
    · obtain ⟨rfl, hhead⟩ := hblock
      obtain ⟨t, ht, rfl⟩ := (first_blockComment hhead).mp hf
      obtain ⟨s, rfl⟩ := List.head?_eq_some_iff.mp hhead
      exact .blockComment hi ht hrest
    by_cases hraw : c = '\x60'
    · subst hraw
      obtain ⟨t, ht, rfl⟩ := first_raw.mp hf
      exact .raw hi ht hrest
    · exact .inline hn (fun he hhead => hr ⟨he, hhead⟩) hline hblock hraw hf hrest

end Piece

namespace Layout

variable {indent t : List Char}

theorem length_le_relaid (h : indent ≠ []) : t.length ≤ (relaid indent t).length := by
  have hpos := List.length_pos_iff.mpr h
  induction t using relaid.induct with
  | case1 => exact Nat.le_refl _
  | case2 r ih | case3 r ih =>
    simp only [relaid, List.length_cons, List.length_append]
    omega
  | case4 c r hc hcr ih =>
    rw [relaid.eq_4 _ c r hc hcr]
    exact Nat.succ_le_succ ih

/-- A text stays as it is if it has no carriage return before a line feed, and no line feed where
there is an indent. -/
theorem relaid_eq_self :
    relaid indent t = t ↔ ¬['\r', '\n'] <:+: t ∧ (indent = [] ∨ '\n' ∉ t) := by
  induction t using relaid.induct with
  | case1 => simp [relaid]
  | case2 r ih =>
    have hinfix : ['\r', '\n'] <:+: '\n' :: r ↔ ['\r', '\n'] <:+: r := by
      simp [List.infix_cons_iff]
    rw [relaid, List.cons_inj_right, hinfix]
    by_cases hi : indent = []
    · rw [hi] at ih ⊢
      simpa using ih
    · have hlen := length_le_relaid (t := r) hi
      have hpos := List.length_pos_iff.mpr hi
      have hne : indent ++ relaid indent r ≠ r := fun h => by
        have := congrArg List.length h
        rw [List.length_append] at this
        omega
      simp [hne, hi]
  | case3 r ih =>
    have hinfix : ['\r', '\n'] <:+: '\r' :: '\n' :: r := ⟨[], r, rfl⟩
    simp [relaid, hinfix]
  | case4 c r hc hcr ih =>
    have hinfix : ['\r', '\n'] <:+: c :: r ↔ ['\r', '\n'] <:+: r := by
      refine List.infix_cons_iff.trans (or_iff_right fun h => ?_)
      obtain ⟨s, hs⟩ := h
      cases hs
      exact hcr s rfl rfl
    have hmem : '\n' ∈ c :: r ↔ '\n' ∈ r :=
      List.mem_cons.trans (or_iff_right fun h => hc h.symm)
    rw [relaid.eq_4 _ c r hc hcr, List.cons_inj_right, hinfix, hmem, ih]

end Layout

theorem Kind.relaid_literal {indent : List Char} {cls : LiteralClass} {text : String} :
    (Kind.literal cls text).relaid indent = .literal cls text ↔
      ¬['\r', '\n'] <:+: text.toList ∧ (indent = [] ∨ '\n' ∉ text.toList) := by
  rw [← Layout.relaid_eq_self, Kind.relaid, Kind.literal.injEq, ← String.toList_inj,
    String.toList_ofList, and_iff_right rfl]

namespace Program

/-- The tokens in the rows of an entry are those of the entry, but the lines of a literal get the
indent, too, and lose their carriage returns.  So they are the same if and only if no literal runs
over a line end, or the entry is an import and no literal has a carriage return before a line
feed. -/
theorem tokens_of_mem {l : Log} {q : Placement} {e : Entry} {ts : List Token}
    (hq : q ∈ (ofLog l).placements) (he : l.entries[q.entry]? = some e)
    (hts : Token.ofSource e.text = .ok ts) :
    ∃ ts', Token.ofSource (Text.unlines (q.rows (ofLog l).rows)) = .ok ts' ∧
      ts'.map (·.kind) =
        (ts.map (·.kind)).map (Kind.relaid (Layout.indentOf e).toList) ∧
      (ts'.map (·.kind) = ts.map (·.kind) ↔
        ∀ cls text, Kind.literal cls text ∈ ts.map (·.kind) →
          ¬['\r', '\n'] <:+: text.toList ∧ (e.isImport = true ∨ '\n' ∉ text.toList)) := by
  obtain ⟨e', he', hrows⟩ := rows_of_mem hq
  cases he.symm.trans he'
  have htabs : ∀ c ∈ (Layout.indentOf e).toList, c = '\t' := by
    unfold Layout.indentOf
    split
    · exact nofun
    · exact fun c hc => List.mem_singleton.mp hc
  have hnil : (Layout.indentOf e).toList = [] ↔ e.isImport = true := by
    unfold Layout.indentOf
    split <;> simp_all
  obtain ⟨ps, hcut, rfl⟩ := Token.ofSource_eq_ok.mp hts
  obtain ⟨ps', hcut', hkinds⟩ := (Piece.cut_laid htabs hcut).tabs htabs
  have hsource : (Text.unlines (q.rows (ofLog l).rows)).toList =
      (Layout.indentOf e).toList ++ Layout.laid (Layout.indentOf e).toList e.text.toList := by
    rw [hrows, Layout.toList_unlines_indented]
  refine ⟨_, Token.ofSource_eq_ok.mpr ⟨ps', hsource ▸ hcut', rfl⟩, ?_⟩
  simp only [Token.kinds_place, hkinds, true_and]
  have hself := List.map_inj_left (l := Piece.kinds false ps)
    (f := Kind.relaid (Layout.indentOf e).toList) (g := id)
  rw [List.map_id] at hself
  rw [hself, ← hnil]
  constructor
  · exact fun h cls text hmem => Kind.relaid_literal.mp (h _ hmem)
  · intro h k hmem
    cases k with
    | literal cls text => exact Kind.relaid_literal.mpr (h cls text hmem)
    | _ => rfl

theorem tokens_of_mem_raw :
    let l : Log := ⟨[⟨1, .statement, "f(`a\nb`)"⟩]⟩
    let rows := Text.unlines (Placement.rows ⟨0, 16, 17⟩ (ofLog l).rows)
    ∃ ts, Token.ofSource rows = .ok ts ∧ ts.map (·.kind) = [.name "f", .symbol .lparen,
      .literal .string "`a\n\tb`", .symbol .rparen, .newline, .eof] := by
  intro l rows
  have hq : ⟨0, 16, 17⟩ ∈ (ofLog l).placements := by decide +kernel
  have hkinds : (Token.ofSource "f(`a\nb`)").map (·.map (·.kind)) = .ok
      [.name "f", .symbol .lparen, .literal .string "`a\nb`", .symbol .rparen, .newline, .eof] := by
    decide +kernel
  cases hts : Token.ofSource "f(`a\nb`)" with
  | error e =>
    rw [hts] at hkinds
    cases hkinds
  | ok ts =>
    rw [hts] at hkinds
    obtain ⟨ts', hts', hrelaid, -⟩ := tokens_of_mem hq rfl hts
    have hmap : ts.map (·.kind) = _ := Except.ok.inj hkinds
    refine ⟨ts', hts', ?_⟩
    rw [hrelaid, hmap]
    decide

/-- A raw string of two lines gets a tab in the program that it does not have in its entry. -/
theorem tokens_changed_raw :
    let e : Entry := ⟨1, .statement, "s := `a\nb`"⟩
    let l := Log.append {} e
    ∃ q ∈ (ofLog l).placements, l.entries[q.entry]? = some e ∧
      (Token.ofSource e.text).map (·.map (·.kind)) =
        .ok [.name "s", .symbol .define, .literal .string "`a\nb`", .newline, .eof] ∧
      (Token.ofSource (Text.unlines (q.rows (ofLog l).rows))).map (·.map (·.kind)) =
        .ok [.name "s", .symbol .define, .literal .string "`a\n\tb`", .newline, .eof] := by
  refine ⟨⟨0, 16, 17⟩, by decide +kernel, rfl, by decide +kernel, ?_⟩
  rw [rows_ofLog]
  decide +kernel

end Program

end GoRepl
