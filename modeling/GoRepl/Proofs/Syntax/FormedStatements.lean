import GoRepl.Proofs.Syntax.FormedExpressions

/-! # The parser builds well-formed statements

* `stmt_gives` and the lemmas in front of it: the grammar of statements.
* `step_form`, `read_form`: the readers of all phrases, however deep they nest, build well-formed
  trees.
* `TokenStream.sound_of_isTree`: every tree that is parsed keeps the rules at every depth.
-/

namespace GoRepl.Syntax

open Read Grammar

/-- A simple statement is sound as a node. -/
abbrev Simple.Sound (s : Simple) : Prop := (Node.simple s).Sound

/-- A statement is sound as a node. -/
abbrev Stmt.Sound (s : Stmt) : Prop := (Node.stmt s).Sound

/-- The expression that a simple statement consists of. -/
theorem Simple.Sound.expr {x : Expr} (h : (Simple.expr x).Sound) : x.Sound :=
  ⟨(Node.every_iff.mp h).2 _ (.head _), h.head.2 x (.head _)⟩

section Step

variable {rec : Phrases} (h : Phrases.Form rec)

include h

/-! ## Simple statements -/

theorem assignment_gives {left : List Expr} (hne : left ≠ []) (hleft : ∀ x ∈ left, x.Sound)
    (op : AssignOp) : Gives Simple.Sound (assignment rec left op) := by
  unfold assignment
  refine .any fun _ => .bind (exprs_gives h) fun right hright => ?_
  have hassign : (∀ c, op = .compound c → left.length = 1 ∧ right.length = 1) →
      (Simple.assign left op right).Sound := fun hlength =>
    Node.sound_simple ⟨hne, hright.1, hlength⟩
      (Node.proper_map (List.forall_mem_append.mpr ⟨hleft, hright.2⟩))
  extract_lets done
  split
  · split
    · exact .fail_bind _ _
    · rename_i hlength
      refine .of_pure (hassign fun c _ => ?_)
      have hpos := List.length_pos_iff.mpr hne
      have hpos' := List.length_pos_iff.mpr hright.1
      simp only [Bool.or_eq_true, decide_eq_true_eq, not_or] at hlength
      omega
  · rename_i hnot
    exact .of_pure (hassign fun c hc => absurd hc (hnot c))

theorem simpleTail_gives {left : List Expr} (hne : left ≠ []) (hleft : ∀ x ∈ left, x.Sound) :
    Gives Simple.Sound (simpleTail rec left) := by
  unfold simpleTail
  refine .any fun k => ?_
  split
  · exact assignment_gives h hne hleft _
  split
  · rename_i x
    have hx : ∀ c ∈ [Node.expr x], c.Proper := List.forall_mem_singleton.mpr (hleft x (.head _))
    split
    · refine .any fun _ => .bind (expr_gives h) fun v hv => .of_pure (Node.sound_simple trivial ?_)
      exact List.forall_mem_cons.mpr ⟨hleft x (.head _), List.forall_mem_singleton.mpr hv⟩
    · exact .any fun _ => .of_pure (Node.sound_simple trivial hx)
    · exact .any fun _ => .of_pure (Node.sound_simple trivial hx)
    · exact .of_pure (Node.sound_simple trivial hx)
  · exact .unexpected _

theorem simple_gives : Gives Simple.Sound (simple rec) := by
  unfold simple
  exact .bind (exprs_gives h) fun left hleft => simpleTail_gives h hleft.1 hleft.2

theorem block_gives : Gives (fun ss => ∀ s ∈ ss, s.Sound) (block rec) := by
  unfold block
  exact .any fun _ => .bind (h.gives .stmts) fun ss hss => .any fun _ => .of_pure hss

/-! ## Control statements -/

theorem initAndLast_gives :
    Gives (fun p => (∀ s ∈ p.1, s.Sound) ∧ ∀ s ∈ p.2, s.Sound) (initAndLast rec) := by
  have hlast : ∀ fst : Option Simple, (∀ s ∈ fst, s.Sound) →
      Gives (fun p => (∀ s ∈ p.1, s.Sound) ∧ ∀ s ∈ p.2, s.Sound) (atSemicolon >>= fun b =>
        if b = true then do
          skip
          if ← atSymbol .lbrace then return (fst, none)
          let s ← simple rec
          return (fst, some s)
        else return (none, fst)) := by
    intro fst hfst
    refine .any fun b => ?_
    split
    · refine .any fun _ => .any fun b => ?_
      split
      · exact .of_pure ⟨hfst, nofun⟩
      · exact .bind (simple_gives h) fun s hs => .of_pure ⟨hfst, forall_mem_some hs⟩
    · exact .of_pure ⟨nofun, hfst⟩
  unfold initAndLast
  refine .any fun b => ?_
  split
  · exact hlast none nofun
  · exact .bind (simple_gives h) fun s hs => hlast (some s) (forall_mem_some hs)

omit h in
theorem condition_gives {o : Option Simple} (ho : ∀ s ∈ o, s.Sound) :
    Gives Expr.Sound (condition o) := by
  unfold condition
  split
  · exact .of_pure (ho _ rfl).expr
  · exact .fail _
  · exact .fail _

theorem elseBranch_gives :
    Gives (fun o => ∀ s ∈ o, s.Sound ∧ s.isBranch = true) (elseBranch rec) := by
  unfold elseBranch
  refine .any fun k => ?_
  split
  · refine .any fun _ => .any fun k => ?_
    split
    · exact .bind (h.gives .conditional) fun s hs => .of_pure (forall_mem_some hs)
    · refine .bind (block_gives h) fun b hb => .of_pure (forall_mem_some ⟨?_, rfl⟩)
      exact Node.sound_stmt trivial (List.forall_mem_map.mpr hb)
    · exact .unexpected _
  · exact .of_pure nofun

theorem conditional_gives : Gives (fun s => s.Sound ∧ s.isBranch = true) (conditional rec) := by
  unfold conditional
  refine .any fun _ => ?_
  extract_lets rest
  have hrest : Gives (fun s => s.Sound ∧ s.isBranch = true) (rest ()) := by
    refine .bind (.header (initAndLast_gives h)) fun head hhead => ?_
    refine .bind (condition_gives hhead.2) fun cond hcond => ?_
    refine .bind (block_gives h) fun body hbody => ?_
    refine .bind (elseBranch_gives h) fun orElse helse => .of_pure ⟨Node.sound_stmt ?_ ?_, rfl⟩
    · exact fun s hs => (helse s hs).2
    · refine List.forall_mem_append.mpr ⟨Node.proper_option hhead.1,
        List.forall_mem_cons.mpr ⟨hcond, List.forall_mem_map.mpr ?_⟩⟩
      refine List.forall_mem_append.mpr ⟨hbody, fun s hs => ?_⟩
      exact (helse s (Option.mem_toList.mp hs)).1
  refine .any fun b => ?_
  split
  · exact .fail_bind _ _
  · exact hrest

theorem caseClause_gives : Gives (fun c => (Node.caseClause c).Sound) (caseClause rec) := by
  unfold caseClause
  refine .any fun k => ?_
  extract_lets rest
  have hrest : ∀ es : Option (List Expr), (∀ x ∈ es.getD [], x.Sound) →
      Gives (fun c => (Node.caseClause c).Sound) (rest es) := by
    intro es hes
    refine .any fun _ => .bind (h.gives .stmts) fun ss hss => .of_pure (Node.sound_of_proper id ?_)
    exact List.forall_mem_append.mpr ⟨Node.proper_map hes, List.forall_mem_map.mpr hss⟩
  split
  · exact .any fun _ => .bind (exprs_gives h) fun xs hxs => hrest (some xs) hxs.2
  · exact .any fun _ => hrest none nofun
  · exact .fail_bind _ _

theorem caseClauses_gives :
    Gives (fun cs => ∀ c ∈ cs, (Node.caseClause c).Sound) (caseClauses rec) := by
  unfold caseClauses
  refine .any fun b => ?_
  split
  · exact .of_pure nofun
  · exact .cons (caseClause_gives h) (h.gives .caseClauses)

theorem switch_gives : Gives Stmt.Sound (switch rec) := by
  unfold switch
  refine .any fun _ => .bind (Q := fun p => (∀ s ∈ p.1, Simple.Sound s) ∧
    ∀ s ∈ p.2, Simple.Sound s) (.header (.any fun b => ?_)) fun head hhead => ?_
  · split
    · exact .of_pure ⟨nofun, nofun⟩
    · exact initAndLast_gives h
  · refine .any fun _ => .bind (h.gives .caseClauses) fun cs hcs => .any fun _ => ?_
    refine .of_pure (Node.sound_stmt trivial ?_)
    refine List.forall_mem_append.mpr ⟨?_, List.forall_mem_map.mpr hcs⟩
    rw [List.map_append]
    exact List.forall_mem_append.mpr ⟨Node.proper_option hhead.1, Node.proper_option hhead.2⟩

theorem commClause_gives : Gives (fun c => (Node.commClause c).Sound) (commClause rec) := by
  unfold commClause
  refine .any fun k => ?_
  extract_lets rest
  have hrest : ∀ comm : Option Simple, (∀ s ∈ comm, s.Sound) →
      Gives (fun c => (Node.commClause c).Sound) (rest comm) := by
    intro comm hcomm
    refine .any fun _ => .bind (h.gives .stmts) fun ss hss => .of_pure (Node.sound_of_proper id ?_)
    exact List.forall_mem_append.mpr ⟨Node.proper_option hcomm, List.forall_mem_map.mpr hss⟩
  split
  · exact .any fun _ => .bind (simple_gives h) fun s hs => hrest (some s) (forall_mem_some hs)
  · exact .any fun _ => hrest none nofun
  · exact .fail_bind _ _

theorem commClauses_gives :
    Gives (fun cs => ∀ c ∈ cs, (Node.commClause c).Sound) (commClauses rec) := by
  unfold commClauses
  refine .any fun b => ?_
  split
  · exact .of_pure nofun
  · exact .cons (commClause_gives h) (h.gives .commClauses)

theorem select_gives : Gives Stmt.Sound (select rec) := by
  unfold select
  refine .any fun _ => .any fun _ => .bind (h.gives .commClauses) fun cs hcs => .any fun _ => ?_
  exact .of_pure (Node.sound_stmt trivial (List.forall_mem_map.mpr hcs))

omit h in
/-- What a loop with the header is made of is sound.  A range clause has a key if it has a value or
declares its variables. -/
def LoopHeader.Sound : LoopHeader → Prop
  | .range key value define operand =>
    (∀ x ∈ key.toList ++ value.toList ++ [operand], x.Sound) ∧
      (value.isSome = true → key.isSome = true) ∧ (key = none → define = false)
  | .clauses init cond post => (∀ s ∈ init, s.Sound) ∧ (∀ s ∈ cond, s.Sound) ∧ ∀ s ∈ post, s.Sound

theorem rangeOver_gives {left : List Expr} (hleft : ∀ x ∈ left, x.Sound) {define : Bool}
    (hdefine : left = [] → define = false) :
    Gives LoopHeader.Sound (rangeOver rec left define) := by
  unfold rangeOver
  refine .any fun _ => .bind (expr_gives h) fun x hx => ?_
  extract_lets done
  have hdone : Gives LoopHeader.Sound (done ()) := by
    refine .of_pure ⟨?_, ?_, ?_⟩
    · simp only [List.mem_append, Option.mem_toList, List.mem_singleton]
      rintro y ((hy | hy) | rfl)
      · exact hleft y (List.mem_of_getElem? hy)
      · exact hleft y (List.mem_of_getElem? hy)
      · exact hx
    · intro hvalue
      cases left with
      | nil => cases hvalue
      | cons y left => rfl
    · intro hkey
      cases left with
      | nil => exact hdefine rfl
      | cons y left => cases hkey
  split
  · exact .fail_bind _ _
  · exact hdone

theorem loopClauses_gives {init : Option Simple} (hinit : ∀ s ∈ init, s.Sound) :
    Gives LoopHeader.Sound (loopClauses rec init) := by
  unfold loopClauses
  refine .any fun _ => ?_
  extract_lets rest
  have hrest : ∀ cond : Option Simple, (∀ s ∈ cond, s.Sound) →
      Gives LoopHeader.Sound (rest cond) := by
    intro cond hcond
    refine .any fun b => ?_
    split
    · exact .fail_bind _ _
    refine .any fun _ => .any fun b => ?_
    split
    · exact .of_pure ⟨hinit, hcond, nofun⟩
    · refine .bind (simple_gives h) fun post hpost => .of_pure ?_
      exact ⟨hinit, hcond, forall_mem_some hpost⟩
  refine .any fun b => ?_
  split
  · exact hrest none nofun
  · exact .bind (simple_gives h) fun s hs => hrest (some s) (forall_mem_some hs)

theorem loopFrom_gives {left : List Expr} (hne : left ≠ []) (hleft : ∀ x ∈ left, x.Sound) :
    Gives LoopHeader.Sound (loopFrom rec left) := by
  unfold loopFrom
  refine .any fun k => .any fun second => ?_
  split
  · exact .any fun _ => rangeOver_gives h hleft fun hnil => absurd hnil hne
  · exact .any fun _ => rangeOver_gives h hleft fun hnil => absurd hnil hne
  · refine .bind (simpleTail_gives h hne hleft) fun s hs => .any fun b => ?_
    split
    · exact loopClauses_gives h (forall_mem_some hs)
    · exact .of_pure ⟨nofun, forall_mem_some hs, nofun⟩

theorem loopHeader_gives : Gives LoopHeader.Sound (loopHeader rec) := by
  unfold loopHeader
  refine .any fun b => ?_
  split
  · exact .of_pure ⟨nofun, nofun, nofun⟩
  refine .any fun b => ?_
  split
  · exact loopClauses_gives h nofun
  refine .any fun k => ?_
  split
  · exact rangeOver_gives h (List.forall_mem_nil _) fun _ => rfl
  · exact .bind (exprs_gives h) fun left hleft => loopFrom_gives h hleft.1 hleft.2

theorem loop_gives : Gives Stmt.Sound (loop rec) := by
  unfold loop
  refine .any fun _ => .bind (.header (loopHeader_gives h)) fun head hhead => ?_
  refine .bind (block_gives h) fun body hbody => ?_
  have hstmts : ∀ c ∈ body.map Node.stmt, c.Proper := List.forall_mem_map.mpr hbody
  split
  · refine .of_pure (Node.sound_stmt hhead.2 ?_)
    exact List.forall_mem_append.mpr ⟨Node.proper_map hhead.1, hstmts⟩
  · refine .of_pure (Node.sound_stmt trivial ?_)
    exact List.forall_mem_append.mpr ⟨List.forall_mem_append.mpr
      ⟨List.forall_mem_append.mpr ⟨Node.proper_option hhead.1, List.forall_mem_nil _⟩,
        Node.proper_option hhead.2.2⟩, hstmts⟩
  · refine .of_pure (Node.sound_stmt trivial ?_)
    refine List.forall_mem_append.mpr ⟨List.forall_mem_append.mpr
      ⟨List.forall_mem_append.mpr ⟨Node.proper_option hhead.1, ?_⟩,
        Node.proper_option hhead.2.2⟩, hstmts⟩
    exact List.forall_mem_singleton.mpr (hhead.2.1 _ rfl).expr
  · exact .fail _

/-! ## Declarations -/

omit h in
theorem names_gives : Gives (fun ns => ns ≠ []) (names rec) := by
  unfold names
  exact .any fun n => .any fun ns => .of_pure (List.cons_ne_nil _ _)

theorem valueSpec_gives (kw : ValueKeyword) (first : Bool) :
    Gives (fun spec => (Node.valueSpec spec).Sound ∧ spec.isComplete kw first = true)
      (valueSpec rec kw first) := by
  unfold valueSpec
  refine .bind names_gives fun ns hns => .any fun k => ?_
  extract_lets typed
  have htyped : ∀ t : Option Expr, (∀ x ∈ t, x.Sound) →
      Gives (fun spec => (Node.valueSpec spec).Sound ∧ spec.isComplete kw first = true)
        (typed t) := by
    intro t ht
    refine .any fun b => ?_
    extract_lets checked
    have hchecked : ∀ vs : List Expr, (∀ x ∈ vs, x.Sound) →
        Gives (fun spec => (Node.valueSpec spec).Sound ∧ spec.isComplete kw first = true)
          (checked vs) := by
      intro vs hvs
      have hspec : (Node.valueSpec (.mk ns t vs)).Sound := by
        refine Node.sound_of_proper (fun hplain => ⟨hns, hplain⟩)
          (Node.proper_map (List.forall_mem_append.mpr ⟨?_, hvs⟩))
        exact fun x hx => ht x (Option.mem_toList.mp hx)
      cases kw with
      | var =>
        simp only [checked]
        split
        · exact .fail_bind _ _
        · rename_i hany
          refine .of_pure ⟨hspec, ?_⟩
          cases t <;> cases vs <;> simp_all [ValueSpec.isComplete]
      | const =>
        simp only [checked]
        split
        · exact .fail_bind _ _
        · rename_i hany
          refine .of_pure ⟨hspec, ?_⟩
          cases t <;> cases vs <;> simp_all [ValueSpec.isComplete]
    split
    · exact .any fun _ => .bind (exprs_gives h) fun vs hvs => hchecked vs hvs.2
    · exact hchecked [] nofun
  split
  · exact htyped none nofun
  · exact .bind (h.gives .type) fun t ht => htyped (some t) (forall_mem_some ht.toSound)

omit h in
/-- One more line in front of others. -/
theorem lines_cons {kw : ValueKeyword} {first : Bool} {spec : ValueSpec} {specs : List ValueSpec}
    (hspec : spec.isComplete kw first = true) (hspecs : kw.Lines false specs) :
    kw.Lines first (spec :: specs) := by
  refine ⟨List.forall_mem_cons.mpr ⟨?_, hspecs.1⟩, forall_mem_some hspec⟩
  obtain ⟨ns, t, vs⟩ := spec
  cases kw <;> cases first <;> simp_all [ValueSpec.isComplete]

theorem valueSpecs_gives (kw : ValueKeyword) (first : Bool) :
    Gives (fun specs => (∀ spec ∈ specs, (Node.valueSpec spec).Sound) ∧ kw.Lines first specs)
      (valueSpecs rec kw first) := by
  unfold valueSpecs
  refine .any fun b => ?_
  split
  · exact .of_pure ⟨nofun, nofun, nofun⟩
  · refine .bind (valueSpec_gives h kw first) fun spec hspec => .any fun _ => ?_
    refine .bind (h.gives (.valueSpecs kw false)) fun specs hspecs => .of_pure ?_
    exact ⟨List.forall_mem_cons.mpr ⟨hspec.1, hspecs.1⟩, lines_cons hspec.2 hspecs.2⟩

theorem typeSpec_gives : Gives (fun spec => (Node.typeSpec spec).Sound) (typeSpec rec) := by
  unfold typeSpec
  refine .any fun n => ?_
  have htype : ∀ isAlias, Gives (fun spec => (Node.typeSpec spec).Sound)
      (rec .type >>= fun t => pure (TypeSpec.mk n isAlias t)) := fun isAlias =>
    .bind (h.gives .type) fun t ht =>
      .of_pure (Node.sound_of_proper id (List.forall_mem_singleton.mpr ht.toSound))
  refine .any fun isAlias => ?_
  split
  · exact .any fun _ => htype isAlias
  · exact htype isAlias

theorem typeSpecs_gives :
    Gives (fun specs => ∀ spec ∈ specs, (Node.typeSpec spec).Sound) (typeSpecs rec) := by
  unfold typeSpecs
  refine .any fun b => ?_
  split
  · exact .of_pure nofun
  · exact .consEnded (typeSpec_gives h) (h.gives .typeSpecs)

omit h in
theorem group_gives {α : Type} {post : List α → Prop} {lines : Read (List α)} {line : Read α}
    (hlines : Gives post lines) (hline : Gives (fun l => post [l]) line) :
    Gives post (group lines line) := by
  unfold group
  refine .any fun b => ?_
  split
  · exact .any fun _ => .bind hlines fun ls hls => .any fun _ => .of_pure hls
  · exact .bind hline fun l hl => .of_pure hl

theorem valueDecl_gives (kw : ValueKeyword) : Gives Stmt.Sound (valueDecl rec kw) := by
  have hspecs : Gives (fun specs => (∀ spec ∈ specs, (Node.valueSpec spec).Sound) ∧
      kw.Lines true specs) (group (rec (.valueSpecs kw true)) (valueSpec rec kw true)) := by
    refine group_gives (h.gives (.valueSpecs kw true)) ((valueSpec_gives h kw true).mono ?_)
    intro spec hspec
    refine ⟨?_, lines_cons hspec.2 ⟨nofun, nofun⟩⟩
    simpa using hspec.1
  unfold valueDecl
  refine .any fun _ => .bind hspecs fun specs hspecs => .of_pure (Node.sound_stmt hspecs.2 ?_)
  exact List.forall_mem_map.mpr hspecs.1

theorem typeDecl_gives : Gives Stmt.Sound (typeDecl rec) := by
  have hspecs : Gives (fun specs => ∀ spec ∈ specs, (Node.typeSpec spec).Sound)
      (group (rec .typeSpecs) (typeSpec rec)) :=
    group_gives (h.gives .typeSpecs) ((typeSpec_gives h).mono fun spec hspec => by
      simpa using hspec)
  unfold typeDecl
  refine .any fun _ => .bind hspecs fun specs hspecs => .of_pure (Node.sound_stmt trivial ?_)
  exact List.forall_mem_map.mpr hspecs

/-! ## Statements -/

theorem launched_gives (w : Keyword) :
    Gives (fun x => x.Sound ∧ x.isCall = true) (launched rec w) := by
  unfold launched
  refine .any fun _ => .bind (expr_gives h) fun x hx => ?_
  split
  · exact .of_pure ⟨hx, rfl⟩
  · exact .fail _

theorem results_gives : Gives (fun xs => ∀ x ∈ xs, x.Sound) (results rec) := by
  unfold results
  refine .any fun _ => .any fun k => ?_
  split
  all_goals first
    | exact .of_pure nofun
    | exact (exprs_gives h).mono fun xs hxs => hxs.2

omit h in
theorem branch_gives (kw : BranchKeyword) : Gives Stmt.Sound (branch kw) := by
  have hbranch : ∀ l, (Stmt.branch kw l).Sound := fun l => Node.sound_stmt trivial nofun
  unfold branch
  refine .any fun _ => .any fun k => ?_
  split
  · exact .of_pure (hbranch none)
  · exact .any fun _ => .of_pure (hbranch _)
  · exact .of_pure (hbranch none)

theorem labeled_gives (l : String) : Gives Stmt.Sound (labeled rec l) := by
  have hlabeled : ∀ s : Stmt, s.Sound → (Stmt.labeled l s).Sound := fun s hs =>
    Node.sound_stmt trivial (List.forall_mem_singleton.mpr hs)
  have hempty : Stmt.Sound .empty := Node.sound_stmt trivial nofun
  unfold labeled
  refine .any fun _ => .any fun k => ?_
  split
  · exact .of_pure (hlabeled _ hempty)
  · exact .of_pure (hlabeled _ hempty)
  · exact .bind (h.gives .stmt) fun s hs => .of_pure (hlabeled s hs)

theorem simpleOrLabeled_gives : Gives Stmt.Sound (simpleOrLabeled rec) := by
  unfold simpleOrLabeled
  refine .bind (exprs_gives h) fun left hleft => .any fun k => ?_
  split
  · exact labeled_gives h _
  · refine .bind (simpleTail_gives h hleft.1 hleft.2) fun s hs => .any fun _ => .of_pure ?_
    exact Node.sound_stmt trivial (List.forall_mem_singleton.mpr hs)

omit h in
theorem ended_gives {α : Type} {post : α → Prop} {p : Read α} (hp : Gives post p) :
    Gives post (ended p) := by
  unfold ended
  exact .bind hp fun a ha => .any fun _ => .of_pure ha

theorem stmt_gives : Gives Stmt.Sound (stmt rec) := by
  have hempty : Stmt.Sound .empty := Node.sound_stmt trivial nofun
  unfold stmt
  refine .any fun k => ?_
  split
  · exact simpleOrLabeled_gives h
  split
  · exact ended_gives (valueDecl_gives h _)
  · exact ended_gives (valueDecl_gives h _)
  · exact ended_gives (typeDecl_gives h)
  · refine ended_gives (.bind (launched_gives h _) fun x hx => .of_pure ?_)
    exact Node.sound_stmt hx.2 (List.forall_mem_singleton.mpr hx.1)
  · refine ended_gives (.bind (launched_gives h _) fun x hx => .of_pure ?_)
    exact Node.sound_stmt hx.2 (List.forall_mem_singleton.mpr hx.1)
  · refine ended_gives (.bind (results_gives h) fun xs hxs => .of_pure ?_)
    exact Node.sound_stmt trivial (Node.proper_map hxs)
  · exact ended_gives (branch_gives _)
  · exact ended_gives (branch_gives _)
  · exact ended_gives (branch_gives _)
  · exact ended_gives (branch_gives _)
  · refine ended_gives (.bind (block_gives h) fun b hb => .of_pure ?_)
    exact Node.sound_stmt trivial (List.forall_mem_map.mpr hb)
  · exact ended_gives ((conditional_gives h).mono fun s hs => hs.1)
  · exact ended_gives (switch_gives h)
  · exact ended_gives (select_gives h)
  · exact ended_gives (loop_gives h)
  · exact .any fun _ => .of_pure hempty
  · exact .any fun _ => .of_pure hempty
  · exact .of_pure hempty
  · exact .of_pure hempty
  · exact .unexpected _

theorem stmts_gives : Gives (fun ss => ∀ s ∈ ss, s.Sound) (stmts rec) := by
  unfold stmts
  refine .any fun k => ?_
  split
  · exact .of_pure nofun
  · exact .cons (stmt_gives h) (h.gives .stmts)

/-! ## All phrases -/

theorem step_gives {α : Type} (ph : Phrase α) : Gives ph.Formed (ph.step rec) := by
  cases ph with
  | binary prec => exact fun _ _ _ hx => (binary_form h hx).1
  | binaryTail prec x => exact fun _ _ _ _ => trivial
  | unary => exact unary_gives h
  | primaryTail x => exact primaryTail_gives h x
  | exprsTail => exact exprsTail_gives h
  | args => exact args_gives h
  | elems => exact elems_gives h
  | type => exact type_gives h
  | typesTail => exact typesTail_gives h
  | typeArgsTail => exact typeArgsTail_gives h
  | namesTail => exact fun _ _ _ _ => trivial
  | fields => exact fields_gives h
  | interfaceItems => exact interfaceItems_gives h
  | unionTail => exact unionTail_gives h
  | params => exact params_gives h
  | stmt => exact stmt_gives h
  | stmts => exact stmts_gives h
  | conditional => exact conditional_gives h
  | caseClauses => exact caseClauses_gives h
  | commClauses => exact commClauses_gives h
  | valueSpecs kw first => exact valueSpecs_gives h kw first
  | typeSpecs => exact typeSpecs_gives h

theorem step_form : Phrases.Form (Phrase.step rec) where
  gives := step_gives h
  stops hx := (binary_form h hx).2
  tail hleft hprec hnext hx := binaryTail_form h hleft hprec hnext hx

end Step

/-- However deep the phrases nest, they build well-formed trees. -/
theorem read_form (depth : Nat) : Phrases.Form (Phrase.read depth) := by
  induction depth with
  | zero => exact ⟨fun _ => .fail _, nofun, fun _ _ _ => nofun⟩
  | succ depth ih => exact step_form ih

/-! ## Parsed trees -/

namespace TokenStream

/-- The tree that the stream is read as, by one of the entry points. -/
inductive IsTree (s : TokenStream) : Node → Prop
  | fragment {t : Stmt} (read : s.fragment = .ok t) : IsTree s (.stmt t)
  | expression {x : Expr} (read : s.expression = .ok x) : IsTree s (.expr x)

/-- Every tree that is parsed keeps the rules at every depth. -/
theorem sound_of_isTree {s : TokenStream} {root : Node} (h : s.IsTree root) : root.Sound := by
  have hform : Phrases.Form s.phrases := read_form _
  cases h with
  | fragment read =>
    obtain ⟨-, s₁, s', hstmt, -⟩ := fragment_eq_ok.mp read
    exact hform.gives .stmt _ _ _ hstmt
  | expression read =>
    obtain ⟨s', hwhole⟩ := run_eq_ok.mp read
    obtain ⟨s₁, hexpr, -⟩ := whole_eq_ok.mp hwhole
    exact (hform.gives (.binary 1) _ _ _ hexpr).1.every

end TokenStream

end GoRepl.Syntax
