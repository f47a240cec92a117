import GoRepl.Proofs.Fragment.Names
import GoRepl.Proofs.Fragment.PrintedValue
import GoRepl.Proofs.Fragment.TopLevel

/-! # The calls that are written for names

The companion of a declaration and the print of values are calls with the names of a fragment as
their arguments.  Their texts are read as these calls, with the names in order.

* `Piece.separated`, `Piece.fronts_separated`: the pieces of names with commas between them, which
  are cut again if the last name does not go on behind them.
* `Syntax.args_of_names`: names are read as the arguments of a call.
* `Syntax.TokenStream.fragment_call`, `Syntax.TokenStream.fragment_printf`: the tokens of the calls.
* `Piece.exists_tokens`: the tokens of a text that ends in names.
* `Echo.format`: the format with a verb for each of some values.
* `Entry.fragment_useText`, `Echo.fragment_values`: the texts of the calls.
* `Shape.calls_of_names`: the calls for the names that a fragment declares or assigns.
-/

namespace GoRepl

/-! ## Names with commas between them -/

namespace Piece

/-- The pieces of names with commas between them. -/
def separated : List String → List Piece
  | [] => []
  | [n] => [written (.name n) n.toList]
  | n :: m :: ns =>
    written (.name n) n.toList :: written (.symbol .comma) [','] :: blank ' ' :: separated (m :: ns)

variable {ns : List String}

theorem text_separated (ns : List String) :
    (separated ns).flatMap text = (", ".intercalate ns).toList := by
  induction ns with
  | nil => rfl
  | cons n ns ih =>
    cases ns with
    | nil => rw [String.intercalate_singleton, separated, List.flatMap_singleton, text]
    | cons m ns =>
      rw [String.intercalate_cons_cons, String.toList_append, String.toList_append, ← ih,
        List.append_assoc]
      rfl

/-- Names with commas between them are cut into these pieces. -/
theorem fronts_separated (hns : ∀ n ∈ ns, Token.IsName n) {z : List Char}
    (hz : ∀ d ∈ z.head?, Number.isWordChar d = false) : Fronts z (separated ns) := by
  induction ns with
  | nil => trivial
  | cons n ns ih =>
    obtain ⟨hn, hns⟩ := List.forall_mem_cons.mp hns
    cases ns with
    | nil =>
      obtain ⟨c, w, hlist, hfirst⟩ := first_of_isName hn hz
      exact ⟨⟨c, w, hlist, hfirst⟩, trivial⟩
    | cons m ns =>
      have hcomma : ∀ rest, ∀ d ∈ (',' :: rest : List Char).head?, Number.isWordChar d = false := by
        rintro rest d ⟨⟩
        rfl
      obtain ⟨c, w, hlist, hfirst⟩ := first_of_isName hn (hcomma _)
      exact ⟨⟨c, w, hlist, hfirst⟩, ⟨_, _, rfl, rfl⟩, ⟨_, _, rfl, rfl⟩, ih hns⟩

theorem front_separated (ends : Bool) (ns : List String) :
    front ends (separated ns) = TopLevel.spelled ns := by
  induction ns generalizing ends with
  | nil => rfl
  | cons n ns ih =>
    cases ns with
    | nil => rfl
    | cons m ns =>
      change .name n :: .symbol .comma :: front _ (separated (m :: ns)) = _
      rw [ih]
      rfl

end Piece

namespace Syntax

open Read Grammar

variable {t : Token} {ts zs : List Token} {l : Int} {n : String} {ns : List String}

theorem expr_name (ht : t.kind = .name n) (hz : (headKind zs).endsExpression = true) (k : Nat) :
    expr (Phrase.read (k + 1)) ⟨t :: zs, l⟩ = .ok (.name n, ⟨zs, l⟩) := by
  have hprimary : Phrase.read (k + 1) (.primaryTail (.name n)) ⟨zs, l⟩ = .ok (.name n, ⟨zs, l⟩) :=
    primaryTail_of_end hz
  rw [expr_of_name ht, bind_of_ok hprimary]
  exact binaryTail_of_end hz 1

/-- Names in front of a closing parenthesis are read as arguments, in order. -/
theorem args_of_names (hns : ns ≠ []) (hts : ts.map (·.kind) = TopLevel.spelled ns)
    (ht : t.kind = .symbol .rparen) (k : Nat) :
    Phrase.read (k + ns.length + 1) .args ⟨ts ++ t :: zs, l⟩ =
      .ok ((ns.map .name, false), ⟨t :: zs, l⟩) := by
  induction ns generalizing ts with
  | nil => exact absurd rfl hns
  | cons n ns ih =>
    cases ns with
    | nil =>
      obtain ⟨u, rfl, hu⟩ := List.map_eq_singleton_iff.mp hts
      have hrparen : headKind (t :: zs) = .symbol .rparen := ht
      have hname : headKind (u :: t :: zs) = .name n := hu
      have hx := expr_name (l := l) hu (by rw [hrparen]; rfl) k
      have hstart : startsSimple (headKind (u :: t :: zs)) = true := by
        rw [hname]
        rfl
      exact args_of_last hstart hx (by rw [hrparen]; decide) (by rw [hrparen]; decide)
    | cons m ns =>
      obtain ⟨u, ts, rfl, hu, hts⟩ := List.map_eq_cons_iff.mp hts
      obtain ⟨p, ts, rfl, hp, hts⟩ := List.map_eq_cons_iff.mp hts
      have hcomma : headKind (p :: (ts ++ t :: zs)) = .symbol .comma := hp
      have hname : headKind (u :: p :: (ts ++ t :: zs)) = .name n := hu
      have hx := expr_name (l := l) hu (by rw [hcomma]; rfl) (k + ns.length + 1)
      have hrest := ih (List.cons_ne_nil _ _) hts
      exact (args_of_comma (by rw [hname]; rfl) hx hp).trans (bind_of_ok hrest _)

namespace TokenStream

variable {u : TokenStream}

/-- The tokens of a list of names, and of what closes a call behind them. -/
theorem names_tokens {us : List Token}
    (h : us.map (·.kind) = TopLevel.spelled ns ++ [.symbol .rparen, .newline]) :
    ∃ ts t e, us = ts ++ [t, e] ∧ ts.map (·.kind) = TopLevel.spelled ns ∧
      t.kind = .symbol .rparen ∧ e.kind = .newline := by
  obtain ⟨ts, last, rfl, hts, hlast⟩ := List.map_eq_append_iff.mp h
  obtain ⟨t, last, rfl, ht, hlast⟩ := List.map_eq_cons_iff.mp hlast
  obtain ⟨e, rfl, he⟩ := List.map_eq_singleton_iff.mp hlast
  exact ⟨ts, t, e, rfl, hts, ht, he⟩

theorem length_of_names {ts : List Token} (hns : ns ≠ [])
    (hts : ts.map (·.kind) = TopLevel.spelled ns) : ts.length + 1 = 2 * ns.length := by
  have hpos : 0 < ns.length := List.length_pos_iff.mpr hns
  rw [← List.length_map (f := (·.kind)), hts, TopLevel.spelled, List.length_intersperse,
    List.length_map]
  omega

theorem fragment_of_line {x : Expr} {e : Token} (he : e.kind = .newline)
    (hx : Phrase.read (u.tokens.length + 1) (.binary 1) ⟨u.tokens, 0⟩ = .ok (x, ⟨[e], 0⟩)) :
    u.fragment = .ok (.simple (.expr x)) :=
  fragment_of_expr (List.forall_mem_singleton.mpr (by rw [he]; rfl)) (Nat.le_succ 1) hx

/-- A call with names as its arguments. -/
theorem fragment_call {f : String} (hns : ns ≠ []) (hu : u.tokens.map (·.kind) =
    .name f :: .symbol .lparen :: (TopLevel.spelled ns ++ [.symbol .rparen, .newline])) :
    u.fragment = .ok (.simple (.expr (.call (.name f) (ns.map .name) false))) := by
  obtain ⟨a, us, htokens, ha, hus⟩ := List.map_eq_cons_iff.mp hu
  obtain ⟨b, us, rfl, hb, hus⟩ := List.map_eq_cons_iff.mp hus
  obtain ⟨ts, t, e, rfl, hts, ht, he⟩ := names_tokens hus
  have hend : headKind [e] = .newline := he
  have hdepth : u.tokens.length + 1 = ns.length + 1 + ns.length + 3 := by
    have hlen := length_of_names hns hts
    rw [htokens]
    simp only [List.length_cons, List.length_append, List.length_nil]
    omega
  refine fragment_of_line he ?_
  rw [hdepth, htokens]
  exact expr_call_args ha hb (args_of_names hns hts ht _) ht (by rw [hend]; rfl)

/-- A call of `Printf` with names behind the format. -/
theorem fragment_printf {format : String} (hns : ns ≠ []) (hu : u.tokens.map (·.kind) =
    .name "fmt" :: .symbol .period :: .name "Printf" :: .symbol .lparen ::
      .literal .string format :: .symbol .comma ::
      (TopLevel.spelled ns ++ [.symbol .rparen, .newline])) :
    u.fragment = .ok (.simple (.expr (.call (.selector (.name "fmt") "Printf")
      (.literal format :: ns.map .name) false))) := by
  obtain ⟨a, us, htokens, ha, hus⟩ := List.map_eq_cons_iff.mp hu
  obtain ⟨b, us, rfl, hb, hus⟩ := List.map_eq_cons_iff.mp hus
  obtain ⟨c, us, rfl, hc, hus⟩ := List.map_eq_cons_iff.mp hus
  obtain ⟨d, us, rfl, hd, hus⟩ := List.map_eq_cons_iff.mp hus
  obtain ⟨f, us, rfl, hf, hus⟩ := List.map_eq_cons_iff.mp hus
  obtain ⟨g, us, rfl, hg, hus⟩ := List.map_eq_cons_iff.mp hus
  obtain ⟨ts, t, e, rfl, hts, ht, he⟩ := names_tokens hus
  have hend : headKind [e] = .newline := he
  have hdepth : u.tokens.length + 1 = ns.length + 3 + ns.length + 5 := by
    have hlen := length_of_names hns hts
    rw [htokens]
    simp only [List.length_cons, List.length_append, List.length_nil]
    omega
  refine fragment_of_line he ?_
  rw [hdepth, htokens]
  exact expr_printf_args ha hb hc hd hf hg (args_of_names hns hts ht _) ht (by rw [hend]; rfl)

end TokenStream

end Syntax

/-! ## The texts of the calls -/

open Syntax

namespace Piece

variable {ns : List String}

/-- The tokens of a text that ends in names and a closing parenthesis. -/
theorem exists_tokens {source : String} {opening : List Piece} (hns : ∀ n ∈ ns, Token.IsName n)
    (hopening : ∀ z, Fronts z opening) (hsource : source.toList =
      opening.flatMap text ++ ((", ".intercalate ns).toList ++ [')'])) :
    ∃ ts, Token.ofSource source = .ok ts ∧ (TokenStream.ofTokens ts).tokens.map (·.kind) =
      front false opening ++ (TopLevel.spelled ns ++ [.symbol .rparen, .newline]) := by
  have hlast : cut [')'] = .ok [written (.symbol .rparen) [')']] := by
    rw [cut_eq_behind (p := written (.symbol .rparen) [')']) rfl]
    change behind _ (cut []) = _
    rw [cut]
    rfl
  have hrparen : ∀ d ∈ ([')'] : List Char).head?, Number.isWordChar d = false := by
    rintro d ⟨⟩
    rfl
  have hcut : cut source.toList =
      .ok (opening ++ (separated ns ++ [written (.symbol .rparen) [')']])) := by
    rw [hsource, ← text_separated, cut_fronts (hopening _),
      cut_fronts (fronts_separated hns hrparen), hlast]
    rfl
  have hts : Token.ofSource source = .ok _ := Token.ofSource_eq_ok.mpr ⟨_, hcut, rfl⟩
  refine ⟨_, hts, TokenStream.map_kind_of_source hts ?_⟩
  rw [Token.kinds_place, kinds_append, kinds_append, front_separated, List.append_assoc,
    List.append_assoc]
  rfl

end Piece

/-- A literal without quotes and backslashes ends at its quote. -/
theorem Piece.throughQuote_plain {q : Char} (hn : q ≠ '\n') (hb : q ≠ '\\') {cs : List Char}
    (h : ∀ c ∈ cs, c ≠ '\n' ∧ c ≠ '\\' ∧ c ≠ q) (z : List Char) :
    throughQuote q (cs ++ q :: z) = some (cs ++ [q]) := by
  induction cs with
  | nil => exact throughQuote_end hn hb
  | cons c cs ih =>
    obtain ⟨⟨hcn, hcb, hcq⟩, hcs⟩ := List.forall_mem_cons.mp h
    rw [List.cons_append, throughQuote_cons hcn hcb hcq, ih hcs]
    rfl

/-- The companion of a declaration of names is a call with these names as its arguments. -/
theorem Entry.fragment_useText {ns : List String} (hns : ∀ n ∈ ns, Token.IsName n) (hne : ns ≠ []) :
    parseFragment (useText ns) =
      .ok (.simple (.expr (.call (.name useHelper) (ns.map .name) false))) := by
  let opening : List Piece :=
    [.written (.name useHelper) useHelper.toList, .written (.symbol .lparen) ['(']]
  have hopening : ∀ z, Piece.Fronts z opening :=
    fun z => ⟨⟨_, _, rfl, rfl⟩, ⟨_, _, rfl, rfl⟩, trivial⟩
  have hsource : (useText ns).toList =
      opening.flatMap Piece.text ++ ((", ".intercalate ns).toList ++ [')']) := by
    simp only [useText, String.toList_append, List.append_assoc]
    rfl
  obtain ⟨ts, hts, hkinds⟩ := Piece.exists_tokens hns hopening hsource
  rw [parseFragment_eq hts, TokenStream.fragment_call hne hkinds]
  rfl

namespace Echo

/-- A verb for each of `k` values, with commas between them. -/
def verbs (k : Nat) : String := ",".intercalate (List.replicate k "%v")

/-- The literal of the format for `k` values. -/
def format (k : Nat) : String := "\"" ++ verbs k ++ "\""

theorem mem_verbs {k : Nat} {c : Char} (h : c ∈ (verbs k).toList) : c ∈ "%v,".toList := by
  induction k with
  | zero => cases h
  | succ k ih =>
    cases k with
    | zero =>
      rw [verbs, List.replicate_one, String.intercalate_singleton] at h
      exact List.mem_append_left [','] h
    | succ k =>
      have hcons : verbs (k + 2) = "%v" ++ "," ++ verbs (k + 1) := by
        rw [verbs, List.replicate_succ, List.replicate_succ, String.intercalate_cons_cons]
        rfl
      rw [hcons, String.toList_append, List.mem_append] at h
      exact h.elim id ih

theorem toList_format (k : Nat) :
    (format k).toList = '"' :: ((verbs k).toList ++ ['"']) := by
  simp only [format, String.toList_append]
  rfl

/-- The pieces of the print of values in front of them. -/
def valuesOpening (k : Nat) : List Piece :=
  [.written (.name "fmt") "fmt".toList, .written (.symbol .period) ['.'],
    .written (.name "Printf") "Printf".toList, .written (.symbol .lparen) ['('],
    .written (.literal .string (format k)) (format k).toList, .written (.symbol .comma) [','],
    .blank ' ']

theorem fronts_valuesOpening (k : Nat) (z : List Char) : Piece.Fronts z (valuesOpening k) := by
  refine ⟨⟨_, _, rfl, rfl⟩, ⟨_, _, rfl, rfl⟩, ⟨_, _, rfl, rfl⟩, ⟨_, _, rfl, rfl⟩,
    ⟨'"', _, toList_format k, ?_⟩, ⟨_, _, rfl, rfl⟩, ⟨_, _, rfl, rfl⟩, trivial⟩
  have hplain : ∀ c ∈ (verbs k).toList, c ≠ '\n' ∧ c ≠ '\\' ∧ c ≠ '"' := by
    intro c hc
    have hmem : c ∈ ['%', 'v', ','] := mem_verbs hc
    simp only [List.mem_cons, List.not_mem_nil, or_false] at hmem
    obtain rfl | rfl | rfl := hmem
    all_goals decide
  have hclose := Piece.throughQuote_plain (by decide) (by decide) hplain
  have hfirst : ∀ r, Piece.first '"' r =
      Piece.quoted .string '"' (Piece.throughQuote '"' r) .unterminatedString := fun r => rfl
  rw [hfirst, List.append_assoc, List.singleton_append, hclose, Piece.quoted, ← toList_format,
    String.ofList_toList]

theorem fragment_values {ns : List String} (hns : ∀ n ∈ ns, Token.IsName n) (hne : ns ≠ []) :
    (∃ ts, Token.ofSource (values ns) = .ok ts ∧
      Kind.literal .string (format ns.length) ∈ ts.map (·.kind)) ∧
    parseFragment (values ns) = .ok (.simple (.expr (.call (.selector (.name "fmt") "Printf")
      (.literal (format ns.length) :: ns.map .name) false))) := by
  have hsource : (values ns).toList = (valuesOpening ns.length).flatMap Piece.text ++
      ((", ".intercalate ns).toList ++ [')']) := by
    have hopening : (valuesOpening ns.length).flatMap Piece.text =
        "fmt.Printf(".toList ++ ((format ns.length).toList ++ [',', ' ']) := rfl
    have hvalues : values ns = "fmt.Printf(\"" ++ ",".intercalate (ns.map fun _ => "%v") ++
        "\", " ++ ", ".intercalate ns ++ ")" := rfl
    rw [hopening, toList_format, hvalues, List.map_const', ← verbs]
    simp only [String.toList_append, List.append_assoc, List.cons_append, List.nil_append]
    rfl
  obtain ⟨ts, hts, hkinds⟩ := Piece.exists_tokens hns (fronts_valuesOpening _) hsource
  constructor
  · have hmem : Kind.literal .string (format ns.length) ∈
        (TokenStream.ofTokens ts).tokens.map (·.kind) := by
      rw [hkinds]
      exact List.mem_append_left _ (.tail _ (.tail _ (.tail _ (.tail _ (.head _)))))
    obtain ⟨t, ht, hk⟩ := List.mem_map.mp hmem
    exact ⟨ts, hts, List.mem_map.mpr ⟨t, (List.takeWhile_prefix _).subset ht, hk⟩⟩
  · rw [parseFragment_eq hts, TokenStream.fragment_printf hne hkinds]
    rfl

end Echo

namespace Shape

/-- The calls that are written for the names that a fragment declares, or for those that it assigns:
the companion of an entry that declares them, and the print of their values. -/
theorem calls_of_names {source : String} {shape : Shape} {ns : List String}
    (h : ofSource source = .ok shape) (hns : ns = shape.declared ∨ ns = shape.assigned)
    (hne : ns ≠ []) :
    (∀ e : Entry, e.kind = .declaration ns → ∃ c, e.companion? = some c ∧
      parseFragment c.text =
        .ok (.simple (.expr (.call (.name useHelper) (ns.map .name) false)))) ∧
    (∃ ts, Token.ofSource (Echo.values ns) = .ok ts ∧
      Kind.literal .string (Echo.format ns.length) ∈ ts.map (·.kind)) ∧
    parseFragment (Echo.values ns) = .ok (.simple (.expr (.call (.selector (.name "fmt") "Printf")
      (.literal (Echo.format ns.length) :: ns.map .name) false))) := by
  have hnames : ∀ n ∈ ns, Token.IsName n := by
    intro n hn
    refine isName_of_sets h ?_
    obtain rfl | rfl := hns
    · exact List.mem_append_left _ hn
    · exact List.mem_append_right _ hn
  refine ⟨fun e he => ?_, Echo.fragment_values hnames hne⟩
  have hdeclared : e.declared = ns := by rw [Entry.declared, he]
  refine ⟨⟨e.sequence, .companion, Entry.useText ns⟩, ?_, Entry.fragment_useText hnames hne⟩
  rw [Entry.companion?, hdeclared, if_neg (by simpa using hne)]

theorem calls_of_names_repeated :
    let ns := ["a", "\u00e9", "a"]
    ofSource "a, \u00e9, a := 1, 2, 3" = .ok (.declares ns) ∧
      Entry.companion? ⟨1, .declaration ns, "a, \u00e9, a := 1, 2, 3"⟩ =
        some ⟨1, .companion, "goloopUse(a, \u00e9, a)"⟩ ∧
      parseFragment "goloopUse(a, \u00e9, a)" =
        .ok (.simple (.expr (.call (.name "goloopUse") (ns.map .name) false))) ∧
      parseFragment "fmt.Printf(\"%v,%v,%v\", a, \u00e9, a)" =
        .ok (.simple (.expr (.call (.selector (.name "fmt") "Printf")
          (.literal "\"%v,%v,%v\"" :: ns.map .name) false))) := by
  intro ns
  have hshape : ofSource "a, \u00e9, a := 1, 2, 3" = .ok (.declares ns) := by decide +kernel
  have hvalues : Echo.values ns = "fmt.Printf(\"%v,%v,%v\", a, \u00e9, a)" := by decide +kernel
  have hformat : Echo.format ns.length = "\"%v,%v,%v\"" := by decide +kernel
  have hcompanion : Entry.companion? ⟨1, .declaration ns, "a, \u00e9, a := 1, 2, 3"⟩ =
      some ⟨1, .companion, "goloopUse(a, \u00e9, a)"⟩ := by decide +kernel
  have hns : ns = (declares ns).declared ∨ ns = (declares ns).assigned := .inl rfl
  obtain ⟨huse, -, hprint⟩ := calls_of_names hshape hns (List.cons_ne_nil _ _)
  obtain ⟨c, hc, hcall⟩ := huse ⟨1, .declaration ns, "a, \u00e9, a := 1, 2, 3"⟩ rfl
  cases hcompanion.symm.trans hc
  rw [hvalues, hformat] at hprint
  exact ⟨hshape, hcompanion, hcall, hprint⟩

end Shape

end GoRepl
