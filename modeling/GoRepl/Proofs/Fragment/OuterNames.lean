import GoRepl.Proofs.Fragment.TopLevel

/-! # The names of a shape stand outside all brackets

What a statement declares and assigns is seen from its tokens without any grammar: only what stands
outside all brackets counts, or directly in the group of a declaration.

* `valueSpec_line`, `valueSpecs_lines`: the lines of a declaration, and the names in front of each.
* `simpleOrLabeled_names`, `valueDecl_names`, `stmt_without`: the sorts of statements.
* `Shape.names_of_statement`: the names of every shape.
-/

namespace GoRepl

namespace Syntax

open Read Grammar TopLevel

/-! ## Declarations of values -/

theorem expectName_bind_eq_ok {α : Type} {f : String → Read α} {s s' : ReadState} {a : α}
    (h : (expectName >>= f) s = .ok (a, s')) :
    ∃ t n, s.tokens = t :: s.tokens.tail ∧ t.kind = .name n ∧
      f n ⟨s.tokens.tail, s.level⟩ = .ok (a, s') := by
  obtain ⟨n, s₁, hname, hf⟩ := bind_eq_ok.mp h
  unfold Read.expectName at hname
  rw [peek_bind] at hname
  generalize hk : headKind s.tokens = k at hname
  split at hname
  · cases hname
    obtain ⟨ts, l⟩ := s
    cases ts with
    | nil => cases hk
    | cons t ts => exact ⟨t, _, rfl, hk, hf⟩
  · cases hname

theorem expect_eq_ok {sym : Symbol} {s s' : ReadState} (h : expect sym s = .ok ((), s')) :
    ∃ t, s.tokens = t :: s'.tokens ∧ t.kind = .symbol sym := by
  obtain ⟨ts, l⟩ := s
  by_cases hk : headKind ts = .symbol sym
  · rw [expect_of_head hk] at h
    cases h
    cases ts with
    | nil => cases hk
    | cons t ts => exact ⟨t, rfl, hk⟩
  · rw [expect_of_head_ne hk] at h
    cases h

/-- Names are separated by commas, and no comma stands behind the last one. -/
theorem names_spelled (depth : Nat) {s s' : ReadState} {ns : List String}
    (h : Grammar.names (Phrase.read depth) s = .ok (ns, s')) :
    ns ≠ [] ∧ s.tokens.map (·.kind) = spelled ns ++ s'.tokens.map (·.kind) ∧
      headKind s'.tokens ≠ .symbol .comma := by
  induction depth generalizing s ns with
  | zero =>
    obtain ⟨t, n, -, -, htail⟩ := expectName_bind_eq_ok h
    cases htail
  | succ depth ih =>
    obtain ⟨t, n, ht, hk, htail⟩ := expectName_bind_eq_ok h
    obtain ⟨ms, s₁, hmore, hpure⟩ := bind_eq_ok.mp htail
    cases hpure
    change namesTail (Phrase.read depth) _ = _ at hmore
    unfold namesTail at hmore
    rw [peek_bind] at hmore
    rw [ht]
    cases hts : s.tokens.tail with
    | nil =>
      rw [hts] at hmore
      cases hmore
      exact ⟨nofun, by simp [spelled, hk], nofun⟩
    | cons t' ts =>
      rw [hts] at hmore
      generalize hnext : headKind (t' :: ts) = k at hmore
      split at hmore
      · rw [skip_bind] at hmore
        obtain ⟨hms, hkinds, hlast⟩ := ih hmore
        refine ⟨nofun, ?_, hlast⟩
        cases ms with
        | nil => exact absurd rfl hms
        | cons m ms =>
          change t.kind :: t'.kind :: ts.map (·.kind) = _
          rw [hkinds, hk, show t'.kind = .symbol .comma from hnext]
          rfl
      · rename_i hcomma
        cases hmore
        exact ⟨nofun, by simp [spelled, hk], fun he => hcomma (hnext.symm.trans he)⟩

/-- What follows the names of a line. -/
def valueRest (rec : Phrases) (kw : ValueKeyword) (first : Bool) (ns : List String) :
    Read ValueSpec := do
  let t ← if endsValueNames (← peek) then pure none else do
    let t ← rec .type
    pure (some t)
  let vs ← if ← atSymbol .assign then do
      skip
      exprs rec
    else pure []
  match kw with
  | .var => if t.isNone && vs.isEmpty then Read.fail .untypedVariable
  | .const => if vs.isEmpty && (first || t.isSome) then Read.fail .uninitializedConstant
  return .mk ns t vs

theorem valueSpec_eq (rec : Phrases) (kw : ValueKeyword) (first : Bool) :
    valueSpec rec kw first = Grammar.names rec >>= valueRest rec kw first := rfl

theorem separates_of_isSemicolon (k : Kind) (hk : k.isSemicolon = true) : k.separates = true := by
  simp [Kind.separates, hk]

/-- Behind the names of a line stand a type and values, with all semicolons inside brackets. -/
theorem valueRest_line {rec : Phrases} {ts : List Token} (hn : Phrases.Nest rec)
    (h : Phrases.Spell rec) (kw : ValueKeyword) (first : Bool) (ns : List String) :
    Spans (fun ks spec => Without Kind.isSemicolon ks ∧ spec.names = ns) ts
      (valueRest rec kw first ns) := by
  unfold valueRest
  refine .peek fun k _ => ?_
  extract_lets typed
  have htyped : ∀ t zs, Spans (fun ks spec => Without Kind.isSemicolon ks ∧ spec.names = ns) zs
      (typed t) := fun t zs => by
    have hchecked : ∀ (b : Bool) (f : SyntaxFault) (vs : List Expr) zs, Spans
        (fun ks spec => Without Kind.isSemicolon ks ∧ spec.names = ns) zs
        (if b = true then (Read.fail f : Read Unit) >>= fun _ => pure (ValueSpec.mk ns t vs)
          else pure (ValueSpec.mk ns t vs)) := by
      intro b f vs zs
      split
      · exact .fail_bind _ _
      · exact .of_pure ⟨.nil, rfl⟩
    refine .atSymbol (fun hk => .skip_of (fun he => ?_) ?_) ?_
    · rw [hk] at he
      cases he
    · refine Spans.bind (exprs_listed hn h) fun vs ks zs hvs => ?_
      have hvalues := hvs.without (p := Kind.isSemicolon) rfl separates_of_isSemicolon
      have hassign : Without Kind.isSemicolon (.symbol .assign :: ks) := hvalues.cons rfl rfl
      cases kw
      all_goals
        refine (hchecked _ _ vs zs).mono fun ks' spec hspec => ?_
        rw [hk]
        exact ⟨hassign.append hspec.1, hspec.2⟩
    · cases kw <;> exact hchecked _ _ _ _
  split
  · exact .pure_bind (htyped none _)
  · refine Spans.bind (h.type _) fun t ks _ ht => .pure_bind ?_
    have htype : Without Kind.isSemicolon ks := ht.1.without.mono separates_of_isSemicolon
    exact (htyped (some t) _).mono fun ks' spec hspec => ⟨htype.append hspec.1, hspec.2⟩

theorem spelled_without : ∀ ns, Without Kind.isSemicolon (spelled ns)
  | [] => .nil
  | [_] => .single rfl rfl
  | _ :: m :: ns => .cons rfl rfl (.cons rfl rfl (spelled_without (m :: ns)))

/-- A line has its names in front, and all semicolons inside brackets. -/
theorem valueSpec_line {depth : Nat} {kw : ValueKeyword} {first : Bool} {s s' : ReadState}
    {spec : ValueSpec} (h : valueSpec (Phrase.read depth) kw first s = .ok (spec, s')) :
    ∃ line, s.tokens.map (·.kind) = line ++ s'.tokens.map (·.kind) ∧
      Without Kind.isSemicolon line ∧
      ∀ ks, ks.head? ≠ some (.symbol .comma) → leadingNames (line ++ ks) = spec.names := by
  rw [valueSpec_eq] at h
  obtain ⟨ns, s₁, hnames, hrest⟩ := bind_eq_ok.mp h
  obtain ⟨hns, hkinds, hnext⟩ := names_spelled depth hnames
  obtain ⟨taken, hs₁, hwithout, hspec⟩ :=
    valueRest_line (read_nest depth) (read_spell depth) kw first ns s₁.level spec s' hrest
  refine ⟨spelled ns ++ taken.map (·.kind), ?_, (spelled_without ns).append hwithout, ?_⟩
  · rw [hkinds, hs₁, List.map_append, List.append_assoc]
  · intro ks hks
    rw [hspec, List.append_assoc]
    refine leadingNames_spelled hns ?_
    cases taken with
    | nil => exact hks
    | cons t taken =>
      rw [hs₁] at hnext
      exact fun he => hnext (Option.some.inj he)

theorem statementEnd_cases {s s' : ReadState} (h : statementEnd s = .ok ((), s')) :
    (∃ t, s.tokens = t :: s'.tokens ∧ t.kind.isSemicolon = true) ∨
      s' = s ∧ (headKind s.tokens = .symbol .rparen ∨ headKind s.tokens = .symbol .rbrace ∨
        headKind s.tokens = .eof) := by
  unfold statementEnd at h
  rw [peek_bind] at h
  generalize hk : headKind s.tokens = k at h
  obtain ⟨ts, l⟩ := s
  have htaken : k.isSemicolon = true → skip ⟨ts, l⟩ = .ok ((), s') →
      ∃ t, ts = t :: s'.tokens ∧ t.kind.isSemicolon = true := by
    intro hsemi hskip
    cases hskip
    cases ts with
    | nil =>
      rw [← hk] at hsemi
      cases hsemi
    | cons t ts =>
      rw [← hk] at hsemi
      exact ⟨t, rfl, hsemi⟩
  split at h
  · exact .inl (htaken rfl h)
  · exact .inl (htaken rfl h)
  · cases h
    exact .inr ⟨rfl, .inl rfl⟩
  · cases h
    exact .inr ⟨rfl, .inr (.inl rfl)⟩
  · cases h
    exact .inr ⟨rfl, .inr (.inr rfl)⟩
  · cases h

theorem valueSpecs_cases {rec : Phrases} {kw : ValueKeyword} {first : Bool} {s s' : ReadState}
    {specs : List ValueSpec} (h : valueSpecs rec kw first s = .ok (specs, s')) :
    (specs = [] ∧ s' = s) ∨ ∃ spec specs' s₁ s₂, specs = spec :: specs' ∧
      valueSpec rec kw first s = .ok (spec, s₁) ∧ statementEnd s₁ = .ok ((), s₂) ∧
      rec (.valueSpecs kw false) s₂ = .ok (specs', s') := by
  change (if (headKind s.tokens == .symbol .rparen || headKind s.tokens == .eof) = true then
    pure [] else _ : Read (List ValueSpec)) s = _ at h
  split at h
  · cases h
    exact .inl ⟨rfl, rfl⟩
  · obtain ⟨spec, s₁, hspec, hrest⟩ := bind_eq_ok.mp h
    obtain ⟨⟨⟩, s₂, hend, hrest⟩ := bind_eq_ok.mp hrest
    obtain ⟨specs', s₃, hspecs, hpure⟩ := bind_eq_ok.mp hrest
    cases hpure
    exact .inr ⟨spec, specs', s₁, s₂, rfl, hspec, hend, hspecs⟩

/-- A group goes on with a name only. -/
theorem valueSpecs_eq_nil {rec : Phrases} {kw : ValueKeyword} {first : Bool} {s s' : ReadState}
    {specs : List ValueSpec} (h : valueSpecs rec kw first s = .ok (specs, s'))
    (hname : ∀ n, headKind s.tokens ≠ .name n) : specs = [] ∧ s' = s := by
  obtain hnil | ⟨spec, specs', s₁, s₂, -, hspec, -⟩ := valueSpecs_cases h
  · exact hnil
  · obtain ⟨ns, s₃, hnames, -⟩ := bind_eq_ok.mp hspec
    obtain ⟨t, n, ht, hk, -⟩ := expectName_bind_eq_ok hnames
    rw [ht] at hname
    exact absurd hk (hname n)

/-- The lines of a group, up to its closing bracket. -/
theorem valueSpecs_lines (depth : Nat) {kw : ValueKeyword} {first : Bool} {s s' : ReadState}
    {specs : List ValueSpec} (h : valueSpecs (Phrase.read depth) kw first s = .ok (specs, s'))
    {ks : List Kind} (hclosing : s'.tokens.map (·.kind) = .symbol .rparen :: ks)
    (hks : ∀ k ∈ ks, k.isSemicolon = true) :
    (lines (s.tokens.map (·.kind))).flatMap leadingNames = specs.flatMap (·.names) := by
  have hnil : (lines (s'.tokens.map (·.kind))).flatMap leadingNames = [] := by
    rw [hclosing, ← List.nil_append (_ :: ks), lines_append_last .nil hks]
    rfl
  induction depth generalizing s specs first with
  | zero =>
    obtain ⟨rfl, rfl⟩ | ⟨spec, specs', s₁, s₂, -, -, -, hrest⟩ := valueSpecs_cases h
    · exact hnil
    · cases hrest
  | succ depth ih =>
    obtain ⟨rfl, rfl⟩ | ⟨spec, specs', s₁, s₂, rfl, hspec, hend, hrest⟩ := valueSpecs_cases h
    · exact hnil
    obtain ⟨line, hkinds, hline, hleading⟩ := valueSpec_line hspec
    obtain ⟨t, ht, hsemi⟩ | ⟨rfl, hhead⟩ := statementEnd_cases hend
    · have hnames := hleading [] nofun
      rw [List.append_nil] at hnames
      rw [hkinds, ht, List.map_cons, lines_append_cons hline hsemi, List.flatMap_cons, hnames,
        ih hrest, List.flatMap_cons]
    · -- nothing ends the last line but the closing bracket
      have hname : ∀ n, headKind s₂.tokens ≠ .name n := by
        intro n hn
        rw [hn] at hhead
        simp at hhead
      obtain ⟨rfl, rfl⟩ := valueSpecs_eq_nil hrest hname
      rw [hkinds, hclosing, lines_append_last hline hks, List.flatMap_singleton,
        List.flatMap_singleton]
      exact hleading _ nofun

/-- The names of a declaration of values stand in front of its lines. -/
theorem valueDecl_names {depth : Nat} {kw : ValueKeyword} {s s' : ReadState} {x : Stmt}
    (h : valueDecl (Phrase.read depth) kw s = .ok (x, s'))
    (hbehind : ∀ k ∈ s'.tokens.map (·.kind), k.isSemicolon = true) :
    ∃ specs, x = .valueDecl kw specs ∧
      valueNames (s.tokens.tail.map (·.kind)) = specs.flatMap (·.names) := by
  obtain ⟨⟨⟩, s₁, hskip, hrest⟩ := bind_eq_ok.mp h
  cases hskip
  obtain ⟨specs, s₂, hgroup, hpure⟩ := bind_eq_ok.mp hrest
  cases hpure
  refine ⟨specs, rfl, ?_⟩
  unfold group at hgroup
  rw [atSymbol_bind] at hgroup
  split at hgroup
  · rename_i hopen
    obtain ⟨⟨⟩, s₃, hskip, hgroup⟩ := bind_eq_ok.mp hgroup
    cases hskip
    obtain ⟨specs', s₄, hspecs, hclosing⟩ := bind_eq_ok.mp hgroup
    obtain ⟨⟨⟩, s₅, hexpect, hpure⟩ := bind_eq_ok.mp hclosing
    cases hpure
    obtain ⟨t, ht, hk⟩ := expect_eq_ok hexpect
    have hclosed : s₄.tokens.map (·.kind) = .symbol .rparen :: s'.tokens.map (·.kind) := by
      rw [ht, List.map_cons, hk]
    cases depth with
    | zero => cases hspecs
    | succ depth =>
      have hlines := valueSpecs_lines depth hspecs hclosed hbehind
      cases hts : s.tokens.tail with
      | nil =>
        rw [hts] at hopen
        cases hopen
      | cons t' ts =>
        rw [hts] at hopen hlines
        rw [List.map_cons, show t'.kind = .symbol .lparen from eq_of_beq hopen]
        exact hlines
  · rename_i hopen
    obtain ⟨spec, s₃, hspec, hpure⟩ := bind_eq_ok.mp hgroup
    cases hpure
    obtain ⟨line, hkinds, -, hleading⟩ := valueSpec_line hspec
    have hcomma : (s'.tokens.map (·.kind)).head? ≠ some (.symbol .comma) := by
      intro he
      cases hbehind _ (List.mem_of_mem_head? he)
    have hnames := hleading _ hcomma
    rw [← hkinds] at hnames
    have hline : ∀ ks, s.tokens.tail.map (·.kind) ≠ .symbol .lparen :: ks := by
      intro ks hks
      obtain ⟨t, ts, hts, hk, -⟩ := List.map_eq_cons_iff.mp hks
      rw [hts] at hopen
      exact hopen (beq_of_eq hk)
    rw [valueNames.eq_2 _ hline, List.flatMap_singleton]
    exact hnames

/-! ## Simple statements -/

theorem separates_of_isAssignment (k : Kind) (hk : isAssignment k = true) :
    k.separates = true := by
  have hop : (assignOp? k).isSome = true := hk
  simp [Kind.separates, hop]

section Step

variable {rec : Phrases} {ts : List Token} {k : Kind} (hn : Phrases.Nest rec)
  (h : Phrases.Spell rec)

theorem skip_without {α : Type} {P : α → Prop} {f : Unit → Read α} (hk : headKind ts = k)
    (hd : k.depth = 0) (hop : isAssignment k = false) (hne : k ≠ .eof)
    (hf : ∀ zs, Spans (fun ks a => Without isAssignment ks ∧ P a) zs (f ())) :
    Spans (fun ks a => Without isAssignment ks ∧ P a) ts (skip >>= f) := by
  refine Spans.skip_of (fun he => absurd (hk ▸ he) hne) ((hf _).mono fun ks a ha => ?_)
  rw [hk]
  exact ⟨ha.1.cons hd hop, ha.2⟩

theorem statementEnd_takes_semicolons {s s' : ReadState} (hend : statementEnd s = .ok ((), s'))
    (hbehind : ∀ k ∈ s'.tokens.map (·.kind), k.isSemicolon = true) :
    ∀ k ∈ s.tokens.map (·.kind), k.isSemicolon = true := by
  obtain ⟨t, ht, hsemi⟩ | ⟨rfl, -⟩ := statementEnd_cases hend
  · rw [ht, List.map_cons]
    exact List.forall_mem_cons.mpr ⟨hsemi, hbehind⟩
  · exact hbehind

theorem without_of_semicolons {ks : List Kind} (hks : ∀ k ∈ ks, k.isSemicolon = true) :
    Without isAssignment ks :=
  .of_forall fun k hk => by rcases isSemicolon_iff.mp (hks k hk) with rfl | rfl <;> exact ⟨rfl, rfl⟩

theorem exists_of_headKind {s : ReadState} (hk : headKind s.tokens = k) (hne : k ≠ .eof) :
    ∃ t ts, s.tokens = t :: ts ∧ t.kind = k := by
  cases hts : s.tokens with
  | nil =>
    rw [hts] at hk
    exact absurd hk.symm hne
  | cons t ts =>
    rw [hts] at hk
    exact ⟨t, ts, rfl, hk⟩

theorem headKind_of_head? (hk : (ts.map (·.kind)).head? = some k) : headKind ts = k := by
  cases ts with
  | nil => cases hk
  | cons t ts => exact Option.some.inj hk

theorem assignment_targets (left : List Expr) (op : AssignOp) :
    Gives (fun s => ∃ right, s = .assign left op right) (assignment rec left op) := by
  unfold assignment
  refine .any fun _ => .any fun right => ?_
  extract_lets done
  have hdone : ∀ u, Gives (fun s => ∃ right, s = .assign left op right) (done u) := fun _ =>
    .of_pure ⟨right, rfl⟩
  split
  · split
    · exact .fail_bind _ _
    · exact hdone ()
  · exact hdone ()

include hn h

/-- Without an assignment operator a simple statement sets no names. -/
theorem simpleTail_without (left : List Expr) (hop : assignOp? (headKind ts) = none) :
    Spans (fun ks s => Without isAssignment ks ∧ (Shape.ofStmt (.simple s)).declared = [] ∧
      (Shape.ofStmt (.simple s)).assigned = []) ts (simpleTail rec left) := by
  unfold simpleTail
  refine .peek fun k hk => ?_
  rw [hk] at hop
  rw [hop]
  dsimp only
  split
  · split
    · refine skip_without hk rfl rfl nofun fun _ => Spans.bind (binary_quiet hn h 1) ?_
      intro v ks _ hv
      have hwithout := hv.1.without.mono separates_of_isAssignment
      exact .of_pure ⟨by rwa [List.append_nil], rfl, rfl⟩
    · exact skip_without hk rfl rfl nofun fun _ => .of_pure ⟨.nil, rfl, rfl⟩
    · exact skip_without hk rfl rfl nofun fun _ => .of_pure ⟨.nil, rfl, rfl⟩
    · exact .of_pure ⟨.nil, rfl, rfl⟩
  · exact .unexpected _

/-- An assignment, another simple statement, or a label. -/
theorem simpleOrLabeled_names {s s' : ReadState} {x : Stmt}
    (hstart : startsSimple (headKind s.tokens) = true)
    (hx : simpleOrLabeled rec s = .ok (x, s'))
    (hbehind : ∀ k ∈ s'.tokens.map (·.kind), k.isSemicolon = true) :
    TopLevel.names (s.tokens.map (·.kind)) =
      ((Shape.ofStmt x).declared, (Shape.ofStmt x).assigned) := by
  have hassigned : TopLevel.names (s.tokens.map (·.kind)) =
      TopLevel.names.assigned (s.tokens.map (·.kind)) := by
    refine names_eq_assigned (fun kw hk => ?_) fun w hk => ?_
    all_goals rw [headKind_of_head? hk] at hstart
    · cases kw <;> cases hstart
    · cases w <;> first | rfl | cases hstart
  rw [hassigned]
  obtain ⟨left, s₁, hleft, hrest⟩ := bind_eq_ok.mp hx
  obtain ⟨taken, hs₁, hlisted⟩ := exprs_listed hn h s.level left s₁ hleft
  rw [hs₁, List.map_append]
  rw [peek_bind] at hrest
  generalize hk : headKind s₁.tokens = k at hrest
  split at hrest
  · rename_i l
    obtain ⟨t, ts, hts, hcolon⟩ := exists_of_headKind hk nofun
    have hother : Shape.ofStmt x = .other := labeled_other l _ _ _ hrest
    rw [hlisted.eq_of_name, hts, List.map_cons, hcolon, hother, List.singleton_append,
      names.assigned, assignment?_label]
    rfl
  · obtain ⟨y, s₂, hy, hended⟩ := bind_eq_ok.mp hrest
    obtain ⟨⟨⟩, s₃, hend, hpure⟩ := bind_eq_ok.mp hended
    cases hpure
    cases hop : assignOp? (headKind s₁.tokens) with
    | some op =>
      rw [simpleTail, peek_bind, hop] at hy
      obtain ⟨right, rfl⟩ := assignment_targets left op s₁ y s₂ hy
      obtain ⟨t, ts, hts, ht⟩ := exists_of_headKind (s := s₁) rfl fun he => by
        rw [he] at hop
        cases hop
      have hfound : assignment? (taken.map (·.kind) ++ s₁.tokens.map (·.kind)) =
          some (targets (depths 0 (taken.map (·.kind))), op) := by
        rw [hts, List.map_cons]
        refine assignment?_of_without (hlisted.without rfl separates_of_isAssignment) ?_
          (ht ▸ hop) _
        exact hlisted.without rfl fun k hk => by simp [Kind.separates, eq_of_beq hk]
      have htargets := targets_of_listed hlisted
      rw [names.assigned, hfound]
      cases op <;> (simp only [htargets]; rfl)
    | none =>
      obtain ⟨taken', hs₂, hwithout, hdeclared, hassigned⟩ :=
        simpleTail_without hn h left hop s₁.level y s₂ hy
      have hbehind' := statementEnd_takes_semicolons hend hbehind
      rw [hdeclared, hassigned, hs₂, List.map_append]
      refine names_of_without (.append ?_ (.append hwithout (without_of_semicolons hbehind')))
      exact hlisted.without rfl separates_of_isAssignment

end Step

/-! ## All statements -/

section Step

variable {rec : Phrases} {ts : List Token} {k : Kind}

theorem statementEnd_without : Spans (fun ks _ => Without isAssignment ks) ts statementEnd := by
  intro l a s' h
  obtain ⟨t, hts, hsemi⟩ | ⟨rfl, -⟩ := statementEnd_cases h
  · exact ⟨[t], hts, without_of_semicolons (List.forall_mem_singleton.mpr hsemi)⟩
  · exact ⟨[], rfl, .nil⟩

theorem ended_without {p : Read Stmt} (hp : Spans (fun ks _ => Without isAssignment ks) ts p) :
    Spans (fun ks _ => Without isAssignment ks) ts (ended p) := by
  refine Spans.bind hp fun a ks zs hks => Spans.bind statementEnd_without fun _ ks' _ hks' => ?_
  exact .of_pure (hks.append (hks'.append .nil))

/-- The statements that are left have all assignments in braces. -/
theorem stmt_without (hn : Phrases.Nest rec) (hk : headKind ts = k)
    (hsimple : startsSimple k = false) (hvalue : ∀ kw : ValueKeyword, k ≠ .keyword kw.word)
    (hsets : ∀ w, k = .keyword w → setsNone w = false) :
    Spans (fun ks _ => Without isAssignment ks) ts (stmt rec) := by
  have hbody : TakesQuiet [] [] (fun _ _ => True) ts (block rec) := by
    unfold block
    refine .expect_opening .brace fun _ => .inside (hn _ _) fun ss _ _ => ?_
    exact .expect_closing .brace fun _ => .of_pure trivial
  have hblock : TakesQuiet [] [] (fun _ _ => True) ts
      (block rec >>= fun b => pure (Stmt.block b)) :=
    .bind hbody fun b _ _ _ => .of_pure trivial
  have hskipped : ∀ {f : Unit → Read Stmt}, k.depth = 0 → isAssignment k = false → k ≠ .eof →
      (∀ zs, Spans (fun ks _ => Without isAssignment ks ∧ True) zs (f ())) →
      Spans (fun ks _ => Without isAssignment ks) ts (skip >>= f) := fun hd hop hne hf =>
    (skip_without hk hd hop hne hf).mono fun _ _ h => h.1
  unfold stmt
  refine .peek fun k' hk' => ?_
  obtain rfl := hk'.symm.trans hk
  rw [if_neg (by rw [hsimple]; exact Bool.false_ne_true)]
  split
  all_goals first
    | exact absurd rfl (hvalue .var)
    | exact absurd rfl (hvalue .const)
    | cases hsets _ rfl
    | skip
  · refine ended_without (hskipped rfl rfl nofun fun _ => .peek fun _ _ => ?_)
    exact .of_pure ⟨.nil, trivial⟩
  · exact ended_without (hblock.mono fun _ _ h => h.1.without.mono separates_of_isAssignment)
  · exact hskipped rfl rfl nofun fun _ => .of_pure ⟨.nil, trivial⟩
  · exact hskipped rfl rfl nofun fun _ => .of_pure ⟨.nil, trivial⟩
  · exact .of_pure .nil
  · exact .of_pure .nil
  · exact .unexpected _

/-- The names of a statement with at most semicolons behind it. -/
theorem stmt_names {depth : Nat} {s s' : ReadState} {x : Stmt}
    (hx : stmt (Phrase.read depth) s = .ok (x, s'))
    (hbehind : ∀ k ∈ s'.tokens.map (·.kind), k.isSemicolon = true) :
    TopLevel.names (s.tokens.map (·.kind)) =
      ((Shape.ofStmt x).declared, (Shape.ofStmt x).assigned) := by
  obtain ⟨hstart, hsimple⟩ | ⟨kw, hk, hvalue⟩ | ⟨hstart, hvalue, hother⟩ := stmt_cases hx
  · exact simpleOrLabeled_names (read_nest depth) (read_spell depth) hstart hsimple hbehind
  · obtain ⟨s₁, hdecl, hend⟩ := ended_eq_ok.mp hvalue
    obtain ⟨specs, rfl, hnames⟩ :=
      valueDecl_names hdecl (statementEnd_takes_semicolons hend hbehind)
    obtain ⟨t, ts, hts, ht⟩ := exists_of_headKind hk nofun
    have hdeclared : (Shape.ofStmt (.valueDecl kw specs)).declared =
        (specs.flatMap (·.names)).filter (· ≠ "_") := (List.filter_flatMap ..).symm
    rw [hdeclared, ← hnames, hts, List.map_cons, ht]
    cases kw <;> rfl
  · rw [hother]
    by_cases hsets : ∀ w, headKind s.tokens = .keyword w → setsNone w = false
    · obtain ⟨taken, hs', hwithout⟩ :=
        stmt_without (read_nest depth) rfl hstart hvalue hsets s.level x s' hx
      rw [names_eq_assigned (fun kw hk => hvalue kw (headKind_of_head? hk))
        fun w hk => hsets w (headKind_of_head? hk), hs', List.map_append]
      exact names_of_without (hwithout.append (without_of_semicolons hbehind))
    · obtain ⟨w, hnot⟩ := not_forall.mp hsets
      obtain ⟨hk, hw⟩ := Classical.not_imp.mp hnot
      obtain ⟨t, ts, hts, ht⟩ := exists_of_headKind hk nofun
      refine names_of_setsNone ?_ (eq_true_of_ne_false hw)
      rw [hts, List.map_cons, List.head?_cons, ht]

end Step

theorem stmt_valueDecl {rec : Phrases} {kw : ValueKeyword} {s s' : ReadState} {x : Stmt}
    (hk : headKind s.tokens = .keyword kw.word) (hx : stmt rec s = .ok (x, s')) :
    ∃ specs, x = .valueDecl kw specs := by
  obtain ⟨hstart, -⟩ | ⟨kw', hk', hvalue⟩ | ⟨-, hvalue, -⟩ := stmt_cases hx
  · rw [hk] at hstart
    cases kw <;> cases hstart
  · have hkw : kw' = kw := by
      rw [hk] at hk'
      cases kw <;> cases kw' <;> first | rfl | cases hk'
    subst hkw
    obtain ⟨s₁, hdecl, -⟩ := ended_eq_ok.mp hvalue
    obtain ⟨⟨⟩, s₂, -, hrest⟩ := bind_eq_ok.mp hdecl
    obtain ⟨specs, s₃, -, hpure⟩ := bind_eq_ok.mp hrest
    cases hpure
    exact ⟨specs, rfl⟩
  · exact absurd hk (hvalue kw)

/-- The names of a stream that is one statement. -/
theorem TokenStream.names_of_fragment {s : TokenStream} (hs : ∀ t ∈ s.tokens, t.kind ≠ .eof)
    {x : Stmt} (h : s.fragment = .ok x) :
    TopLevel.names (s.tokens.map (·.kind)) =
        ((Shape.ofStmt x).declared, (Shape.ofStmt x).assigned) ∧
      ∀ kw : ValueKeyword, (s.tokens.map (·.kind)).head? = some (.keyword kw.word) →
        ∃ specs, x = .valueDecl kw specs := by
  obtain ⟨-, s₁, s', hstmt, hend⟩ := fragment_eq_ok.mp h
  have hstep : stmt (Phrase.read s.tokens.length) ⟨s.tokens, 0⟩ = .ok (x, s₁) := hstmt
  obtain ⟨taken, htaken, -⟩ := read_nest (s.tokens.length + 1) .stmt s.tokens 0 x s₁ hstmt
  have hs₁ : ∀ t ∈ s₁.tokens, t.kind ≠ .eof := fun t ht =>
    hs t (htaken ▸ List.mem_append_right _ ht)
  have hbehind : ∀ k ∈ s₁.tokens.map (·.kind), k.isSemicolon = true := by
    obtain hnil | ⟨t, hone, hsemi⟩ := fragmentEnd_eq_ok hs₁ hend
    · rw [hnil]
      exact nofun
    · rw [hone]
      exact List.forall_mem_singleton.mpr hsemi
  exact ⟨stmt_names hstep hbehind, fun kw hk => stmt_valueDecl (headKind_of_head? hk) hstep⟩

end Syntax

open Syntax

namespace Shape

/-- The names of every shape are those that its tokens set outside all brackets.  A declaration of
values declares all names of its lines but the blank ones. -/
theorem names_of_statement {source : String} {shape : Shape} (h : ofStatement source = .ok shape) :
    ∃ ts, Token.ofSource source = .ok ts ∧
      let kinds := (ts.takeWhile (·.kind ≠ .eof)).map (·.kind)
      (shape.declared, shape.assigned) = TopLevel.names kinds ∧
      ∀ kw : ValueKeyword, kinds.head? = some (.keyword kw.word) →
        ∃ specs, parseFragment source = .ok (.valueDecl kw specs) ∧
          shape.declared = (specs.flatMap (·.names)).filter (· ≠ "_") ∧ shape.assigned = [] := by
  obtain ⟨x, hparse, rfl⟩ := ofStatement_eq_ok.mp h
  obtain ⟨ts, hts, hx⟩ := ofSource_eq_ok hparse
  obtain ⟨hnames, hvalue⟩ :=
    TokenStream.names_of_fragment (fun t ht => TokenStream.ne_eof_of_ofTokens ht) hx
  refine ⟨ts, hts, hnames.symm, fun kw hk => ?_⟩
  obtain ⟨specs, rfl⟩ := hvalue kw hk
  exact ⟨specs, hparse, (List.filter_flatMap ..).symm, rfl⟩

/-- An assignment and a declaration with other ones nested in their values. -/
theorem names_of_statement_nested :
    let assignment := "a, m[\"k\"], _ = f(func() { x := 1 }), 2, 3"
    let declaration := "var (\n\ta, _ = 1, func() int { x := 2; return x }()\n\tb int\n)"
    (∃ ts, Token.ofSource assignment = .ok ts ∧
      TopLevel.names ((ts.takeWhile (·.kind ≠ .eof)).map (·.kind)) = ([], ["a"])) ∧
    ∃ specs, parseFragment declaration = .ok (.valueDecl .var specs) ∧
      (specs.flatMap (·.names)).filter (· ≠ "_") = ["a", "b"] := by
  intro assignment declaration
  have hassignment : ofStatement assignment = .ok (.assigns ["a"]) := by decide +kernel
  have hdeclaration : ofStatement declaration = .ok (.declares ["a", "b"]) := by decide +kernel
  have hhead : (Token.ofSource declaration).toOption.map (fun ts =>
      ((ts.takeWhile (·.kind ≠ .eof)).map (·.kind)).head?) =
      some (some (.keyword .varKw)) := by decide +kernel
  obtain ⟨ts, hts, hnames, -⟩ := names_of_statement hassignment
  obtain ⟨us, hus, -, hvalue⟩ := names_of_statement hdeclaration
  rw [hus] at hhead
  obtain ⟨specs, hparse, hdeclared, -⟩ := hvalue .var (Option.some.inj hhead)
  exact ⟨⟨ts, hts, hnames.symm⟩, specs, hparse, hdeclared.symm⟩

end Shape

end GoRepl
