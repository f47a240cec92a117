import GoRepl.Proofs.Syntax.Calls
import Mathlib.Logic.Function.Basic

/-! # The level at which statements start

A statement starts at level 0 or above.  The simple statements of the header of a conditional, a
switch or a loop start at the level of headers.  Their readers are pieces of larger readers; that
such a piece is run is seen from outside, like a call.

* `Runs`: where a reader runs a piece of itself.
* `conditionalOf`, `switchOf`, `loopOf`, `stmtsOf`: control statements and lists of statements with
  a piece cut out.
* `SameInHeader`: pieces that read the same in a header can stand in for each other there.
* `TokenStream.StartsStmt`, `StartsInHeader`: where statements start.
* `level_restored`: their levels, and that of each part of the grammar at its end.
* `callHeader`: a statement in a function in a header.
-/

namespace GoRepl.Syntax

open Read Grammar

variable {rec : Phrases} {α β : Type}

/-! ## Pieces -/

/-- The reader `p` is `F` with the piece `q`, and runs that piece from `t` in its run from `s`:
whatever fault the piece had there, the run would stop with it. -/
structure Runs (p : Read β) (F : Read α → Read β) (q : Read α) (s t : ReadState) : Prop where
  whole : p = F q
  stops (e : ReadFault) : F (Function.update q t (.error e)) s = .error e

/-- A piece is not run from a state if it does not matter what it reads there. -/
theorem Runs.false_of_congr {p : Read β} {F : Read α → Read β} {q : Read α} {s t : ReadState}
    (hruns : Runs p F q s t) (h : ∀ e, F (Function.update q t (.error e)) s = F q s) : False := by
  have hstop (e) : F q s = .error e := (h e).symm.trans (hruns.stops e)
  have heq := (hstop ⟨.tooDeep, []⟩).symm.trans (hstop ⟨.tooDeep, [default]⟩)
  cases heq

/-- A list of statements, the first of them read by `q`. -/
def stmtsOf (rec : Phrases) (q : Read Stmt) : Read (List Stmt) := do
  if endsStmts (← peek) then return []
  let s ← q
  let ss ← rec .stmts
  return s :: ss

/-- A header that may have begun with the simple statement `fst`, with the next one read by `q`. -/
def lastOf (q : Read Simple) (fst : Option Simple) : Read (Option Simple × Option Simple) := do
  if ← atSemicolon then do
    skip
    if ← atSymbol .lbrace then return (fst, none)
    let s ← q
    return (fst, some s)
  else return (none, fst)

/-- The header of a conditional or a switch, with its simple statements read by `q`. -/
def initAndLastOf (q : Read Simple) : Read (Option Simple × Option Simple) := do
  if ← atSemicolon then lastOf q none
  else do
    let s ← q
    lastOf q (some s)

/-- A conditional, with the simple statements of its header read by `q`. -/
def conditionalOf (rec : Phrases) (q : Read Simple) : Read Stmt := do
  expectKeyword .ifKw
  if ← atSymbol .lbrace then fail .missingCondition
  let (init, last) ← header (initAndLastOf q)
  let cond ← condition last
  let body ← block rec
  let orElse ← elseBranch rec
  return .ifThen init cond body orElse

def switchHeaderOf (q : Read Simple) : Read (Option Simple × Option Simple) := do
  if ← atSymbol .lbrace then return (none, none)
  initAndLastOf q

/-- A switch, with the simple statements of its header read by `q`. -/
def switchOf (rec : Phrases) (q : Read Simple) : Read Stmt := do
  expectKeyword .switchKw
  let (init, tag) ← header (switchHeaderOf q)
  expect .lbrace
  let cs ← rec .caseClauses
  expect .rbrace
  return .switch (isTypeGuard tag) init tag cs

/-- The end of a loop header behind its condition, with the third clause read by `q`. -/
def postOf (q : Read Simple) (init cond : Option Simple) : Read LoopHeader := do
  if !(← atSemicolon) then unexpected .loopClause
  skip
  if ← atSymbol .lbrace then return .clauses init cond none
  let post ← q
  return .clauses init cond (some post)

/-- The second and third clause of a loop, both read by `q`. -/
def loopClausesOf (q : Read Simple) (init : Option Simple) : Read LoopHeader := do
  skip
  if ← atSemicolon then postOf q init none
  else do
    let cond ← q
    postOf q init (some cond)

def loopFromOf (rec : Phrases) (q : Read Simple) (left : List Expr) : Read LoopHeader := do
  match ← peek, ← peekSecond with
  | .symbol .define, .keyword .rangeKw => do
    skip
    rangeOver rec left true
  | .symbol .assign, .keyword .rangeKw => do
    skip
    rangeOver rec left false
  | _, _ => do
    let s ← simpleTail rec left
    if ← atSemicolon then loopClausesOf q (some s)
    else return .clauses none (some s) none

def loopHeaderOf (rec : Phrases) (left : Read (List Expr)) (q : Read Simple) :
    Read LoopHeader := do
  if ← atSymbol .lbrace then return .clauses none none none
  if ← atSemicolon then loopClausesOf q none
  else if (← peek) == .keyword .rangeKw then rangeOver rec [] false
  else do
    let xs ← left
    loopFromOf rec q xs

/-- A loop, with the simple statements of its header read by `q`.  The first of them may turn out
to be a range clause, so the expressions that it starts with are read on their own, by `left`. -/
def loopOf (rec : Phrases) (left : Read (List Expr)) (q : Read Simple) : Read Stmt := do
  expectKeyword .forKw
  let head ← header (loopHeaderOf rec left q)
  let body ← block rec
  match head with
  | .range k v d x => return .range k v d x body
  | .clauses init none post => return .loop init none post body
  | .clauses init (some (.expr x)) post => return .loop init (some x) post body
  | .clauses _ (some _) _ => fail .loopCondition

/-! ## In headers -/

/-- Two readers read the same in a header, and stay at its level. -/
def SameInHeader (p q : Read α) : Prop :=
  ∀ ts, p ⟨ts, -1⟩ = q ⟨ts, -1⟩ ∧ ∀ a s', p ⟨ts, -1⟩ = .ok (a, s') → s'.level = -1

namespace SameInHeader

variable {depth : Nat} {p q : Read α}

/-- A reader of the grammar; if it reads no phrases, any depth will do. -/
theorem refl (depth : Nat) (hp : Composed (Phrase.read depth) p (-1)) : SameInHeader p p :=
  fun _ => ⟨rfl, fun a s' hs => hp.keepsLevel (read_keepsLevel depth) _ a s' hs⟩

theorem bind {f g : α → Read β} (hp : SameInHeader p q) (hf : ∀ a, SameInHeader (f a) (g a)) :
    SameInHeader (p >>= f) (q >>= g) := by
  intro ts
  obtain ⟨heq, hstay⟩ := hp ts
  cases hs : p ⟨ts, -1⟩ with
  | error e =>
    rw [bind_of_error hs, bind_of_error (heq.symm.trans hs)]
    exact ⟨rfl, nofun⟩
  | ok r =>
    obtain ⟨a, us, l⟩ := r
    obtain rfl : l = -1 := hstay a _ hs
    rw [bind_of_ok hs, bind_of_ok (heq.symm.trans hs)]
    exact hf a us

theorem ite {c : Prop} [Decidable c] {p' q' : Read α} (hp : SameInHeader p q)
    (hp' : SameInHeader p' q') : SameInHeader (if c then p else p') (if c then q else q') := by
  split
  · exact hp
  · exact hp'

/-- A header is read the same with the one as with the other. -/
theorem header_eq (h : SameInHeader p q) : header p = header q := by
  funext s
  change (p >>= fun a => setLevel s.level >>= fun _ => pure a) ⟨s.tokens, -1⟩ = _
  exact bind_congr_at (h s.tokens).1 _

end SameInHeader

section Pieces

variable {depth : Nat} {q q' : Read Simple} (h : SameInHeader q q')

include h

theorem lastOf_same (fst : Option Simple) : SameInHeader (lastOf q fst) (lastOf q' fst) := by
  refine .bind (.refl 0 .atSemicolon) fun _ => .ite ?_ (.refl 0 (.of_pure _))
  refine .bind (.refl 0 .skip) fun _ => .bind (.refl 0 (.atSymbol _)) fun _ => ?_
  exact .ite (.refl 0 (.of_pure _)) (.bind h fun _ => .refl 0 (.of_pure _))

theorem initAndLastOf_same : SameInHeader (initAndLastOf q) (initAndLastOf q') :=
  .bind (.refl 0 .atSemicolon) fun _ =>
    .ite (lastOf_same h none) (.bind h fun s => lastOf_same h (some s))

theorem conditionalOf_congr (rec : Phrases) : conditionalOf rec q = conditionalOf rec q' := by
  unfold conditionalOf
  rw [(initAndLastOf_same h).header_eq]

theorem switchOf_congr (rec : Phrases) : switchOf rec q = switchOf rec q' := by
  have hheader : SameInHeader (switchHeaderOf q) (switchHeaderOf q') :=
    .bind (.refl 0 (.atSymbol _)) fun _ => .ite (.refl 0 (.of_pure _)) (initAndLastOf_same h)
  unfold switchOf
  rw [hheader.header_eq]

theorem postOf_same (init cond : Option Simple) :
    SameInHeader (postOf q init cond) (postOf q' init cond) := by
  refine .bind (.refl 0 .atSemicolon) fun _ => ?_
  extract_lets rest rest'
  have hrest (u) : SameInHeader (rest u) (rest' u) := by
    refine .bind (.refl 0 .skip) fun _ => .bind (.refl 0 (.atSymbol _)) fun _ => ?_
    exact .ite (.refl 0 (.of_pure _)) (.bind h fun _ => .refl 0 (.of_pure _))
  exact .ite (.bind (.refl 0 (.unexpected _)) hrest) (hrest ())

theorem loopClausesOf_same (init : Option Simple) :
    SameInHeader (loopClausesOf q init) (loopClausesOf q' init) :=
  .bind (.refl 0 .skip) fun _ => .bind (.refl 0 .atSemicolon) fun _ =>
    .ite (postOf_same h init none) (.bind h fun cond => postOf_same h init (some cond))

theorem loopFromOf_same (left : List Expr) : SameInHeader (loopFromOf (Phrase.read depth) q left)
    (loopFromOf (Phrase.read depth) q' left) := by
  refine .bind (.refl 0 .peek) fun _ => .bind (.refl 0 .peekSecond) fun _ => ?_
  split
  · exact .bind (.refl 0 .skip) fun _ => .refl depth (rangeOver_composed left true)
  · exact .bind (.refl 0 .skip) fun _ => .refl depth (rangeOver_composed left false)
  · refine .bind (.refl depth (simpleTail_composed left)) fun s => ?_
    exact .bind (.refl 0 .atSemicolon) fun _ =>
      .ite (loopClausesOf_same h (some s)) (.refl 0 (.of_pure _))

theorem loopOf_congr {left left' : Read (List Expr)} (hleft : SameInHeader left left') :
    loopOf (Phrase.read depth) left q = loopOf (Phrase.read depth) left' q' := by
  have hheader : SameInHeader (loopHeaderOf (Phrase.read depth) left q)
      (loopHeaderOf (Phrase.read depth) left' q') := by
    refine .bind (.refl 0 (.atSymbol _)) fun _ => .ite (.refl 0 (.of_pure _)) ?_
    refine .bind (.refl 0 .atSemicolon) fun _ => .ite (loopClausesOf_same h none) ?_
    refine .bind (.refl 0 .peek) fun _ => .ite (.refl depth (rangeOver_composed [] false)) ?_
    exact .bind hleft (loopFromOf_same h)
  unfold loopOf
  rw [hheader.header_eq]

end Pieces

/-! ## Where statements start -/

/-- In the runs of the entry points on the stream `s`, a statement is read from `t`. -/
inductive TokenStream.StartsStmt (s : TokenStream) (t : ReadState) : Prop
  /-- The whole fragment, or a statement behind a label. -/
  | called {depth : Nat} (call : s.Called depth ⟨.stmt, t⟩)
  /-- A statement of a block or a clause. -/
  | inList {depth : Nat} {u : ReadState} (call : s.Called (depth + 1) ⟨.stmts, u⟩)
      (runs : Runs (stmts (Phrase.read depth)) (stmtsOf (Phrase.read depth))
        (stmt (Phrase.read depth)) u t)

/-- Over the readers `rec`, a simple statement of a header is read from `t`, wherever the
conditional, switch or loop itself is read. -/
inductive StartsInHeader (rec : Phrases) (t : ReadState) : Prop
  | conditional {s : ReadState}
      (runs : Runs (conditional rec) (conditionalOf rec) (simple rec) s t)
  | switch {s : ReadState} (runs : Runs (switch rec) (switchOf rec) (simple rec) s t)
  /-- The first simple statement of a loop, which starts with expressions. -/
  | loopFirst {s : ReadState}
      (runs : Runs (loop rec) (fun left => loopOf rec left (simple rec)) (exprs rec) s t)
  | loop {s : ReadState} (runs : Runs (loop rec) (loopOf rec (exprs rec)) (simple rec) s t)

/-- A list of statements starts its first one where it starts itself. -/
theorem stmtsOf_congr {q q' : Read Stmt} {s : ReadState} (h : q s = q' s) :
    stmtsOf rec q s = stmtsOf rec q' s := by
  unfold stmtsOf
  rw [peek_bind, peek_bind]
  split
  · rfl
  · exact bind_congr_at h _

theorem TokenStream.StartsStmt.level_nonneg {s : TokenStream} {t : ReadState}
    (h : s.StartsStmt t) : 0 ≤ t.level := by
  cases h with
  | called call => exact call.floor_le
  | @inList depth u call runs =>
    have hu : 0 ≤ u.level := call.floor_le
    by_cases ht : u = t
    · exact ht ▸ hu
    · exact (runs.false_of_congr fun e => stmtsOf_congr (Function.update_of_ne ht _ _)).elim

/-- A reader that keeps the level does not matter in a header but at the level of headers. -/
theorem SameInHeader.update {q : Read α} (hq : KeepsLevel q) {t : ReadState} (ht : t.level ≠ -1)
    (x : Except ReadFault (α × ReadState)) : SameInHeader (Function.update q t x) q := by
  intro ts
  have hne : (⟨ts, -1⟩ : ReadState) ≠ t := fun heq => ht (heq ▸ rfl)
  have hsame : Function.update q t x ⟨ts, -1⟩ = q ⟨ts, -1⟩ := Function.update_of_ne hne x q
  exact ⟨hsame, fun a s' hs => hq _ a s' (hsame.symm.trans hs)⟩

theorem StartsInHeader.level_eq {depth : Nat} {t : ReadState}
    (h : StartsInHeader (Phrase.read depth) t) : t.level = -1 := by
  by_contra ht
  have hexprs (x) : SameInHeader (Function.update (exprs (Phrase.read depth)) t x) _ :=
    .update (IsPart.keepsLevel .exprs) ht x
  have hsimple (x) : SameInHeader (Function.update (simple (Phrase.read depth)) t x) _ :=
    .update (IsPart.keepsLevel .simple) ht x
  cases h with
  | conditional runs =>
    exact runs.false_of_congr fun e => congrFun (conditionalOf_congr (hsimple _) _) _
  | switch runs => exact runs.false_of_congr fun e => congrFun (switchOf_congr (hsimple _) _) _
  | loopFirst runs =>
    have hsame : SameInHeader (simple (Phrase.read depth)) _ := .refl depth simple_composed
    exact runs.false_of_congr fun e => congrFun (loopOf_congr hsame (hexprs _)) _
  | loop runs =>
    have hsame : SameInHeader (exprs (Phrase.read depth)) _ := .refl depth exprs_composed
    exact runs.false_of_congr fun e => congrFun (loopOf_congr (hsimple _) hsame) _

/-- Each part of the grammar leaves the level as it found it.  Whatever is parsed, no statement
starts below level 0; and the simple statements of a header start at level -1. -/
theorem level_restored :
    (∀ (depth : Nat) {α : Type} (p : Read α), IsPart (Phrase.read depth) p →
      ∀ s a s', p s = .ok (a, s') → s'.level = s.level) ∧
    (∀ (s : TokenStream) (t : ReadState), s.StartsStmt t → 0 ≤ t.level) ∧
    (∀ (depth : Nat) (t : ReadState), StartsInHeader (Phrase.read depth) t → t.level = -1) :=
  ⟨fun _ _ _ hp => hp.keepsLevel, fun _ _ h => h.level_nonneg, fun _ _ h => h.level_eq⟩

/-- The tokens of `if func() { x }() { }`. -/
def callHeader : TokenStream where
  tokens := [.keyword .ifKw, .keyword .funcKw, .symbol .lparen, .symbol .rparen, .symbol .lbrace,
    .name "x", .symbol .rbrace, .symbol .lparen, .symbol .rparen, .symbol .lbrace,
    .symbol .rbrace].map fun k => ⟨k, default⟩
  finish := default

theorem callHeader_conditional {rec : Phrases} {q : Read Simple} {e : ReadFault}
    (h : q ⟨callHeader.tokens.drop 1, -1⟩ = .error e) :
    conditionalOf rec q { tokens := callHeader.tokens } = .error e := by
  have hword : expectKeyword .ifKw { tokens := callHeader.tokens } =
      .ok ((), { tokens := callHeader.tokens.drop 1 }) := rfl
  unfold conditionalOf
  rw [bind_of_ok hword, atSymbol_bind, if_neg (by decide)]
  refine bind_of_error (header_eq_error.mpr ?_) _
  unfold initAndLastOf
  rw [atSemicolon_bind, if_neg (by decide)]
  exact bind_of_error h _

theorem callHeader_stops {rec : Phrases} {e : ReadFault}
    (hparams : rec .params ⟨callHeader.tokens.drop 3, -1⟩ =
      .ok ([], ⟨callHeader.tokens.drop 3, -1⟩))
    (hstmts : rec .stmts ⟨callHeader.tokens.drop 5, 0⟩ = .error e) :
    stmt rec { tokens := callHeader.tokens } = .error e := by
  have hlist : paramList rec ⟨callHeader.tokens.drop 2, -1⟩ =
      .ok ([], ⟨callHeader.tokens.drop 4, -1⟩) := by
    unfold paramList
    rw [bind_of_ok (expect_of_head rfl _)]
    exact (bind_of_ok hparams _).trans rfl
  have hsignature : signature rec ⟨callHeader.tokens.drop 2, -1⟩ =
      .ok (.mk [] [], ⟨callHeader.tokens.drop 4, -1⟩) := (bind_of_ok hlist _).trans rfl
  have hfunc : funcOperand rec ⟨callHeader.tokens.drop 2, -1⟩ = .error e := by
    refine (bind_of_ok hsignature _).trans ?_
    rw [atSymbol_bind, if_pos (by decide)]
    refine bind_of_error (nested_eq_error.mpr ?_) _
    exact bind_eq_error.mpr (.inr ⟨(), _, rfl, bind_of_error hstmts _⟩)
  have hoperand : operand rec ⟨callHeader.tokens.drop 1, -1⟩ = .error e := hfunc
  have hprimary : primary rec ⟨callHeader.tokens.drop 1, -1⟩ = .error e := bind_of_error hoperand _
  have hunary : unary rec ⟨callHeader.tokens.drop 1, -1⟩ = .error e := hprimary
  have hexpr : expr rec ⟨callHeader.tokens.drop 1, -1⟩ = .error e := bind_of_error hunary _
  have hexprs : exprs rec ⟨callHeader.tokens.drop 1, -1⟩ = .error e := bind_of_error hexpr _
  have hsimple : simple rec ⟨callHeader.tokens.drop 1, -1⟩ = .error e := bind_of_error hexprs _
  have hconditional : conditional rec { tokens := callHeader.tokens } = .error e :=
    callHeader_conditional hsimple
  have hended : ended (conditional rec) { tokens := callHeader.tokens } = .error e :=
    bind_of_error hconditional _
  exact hended

/-- The statement of the function is in a list that is read at level 0. -/
theorem callHeader_startsStmt : callHeader.StartsStmt ⟨callHeader.tokens.drop 5, 0⟩ := by
  have hcalls : Calls (fun rec => stmt rec) (Phrase.read 11) { tokens := callHeader.tokens }
      ⟨.stmts, ⟨callHeader.tokens.drop 5, 0⟩⟩ := by
    refine .of_stops fun e rec' hstop hsame => ?_
    have hparams := hsame ⟨.params, ⟨callHeader.tokens.drop 3, -1⟩⟩
      fun heq => absurd (congrArg (·.state.level) heq) (by decide)
    exact callHeader_stops (hparams.trans rfl) hstop
  refine .inList (.inner .fragment hcalls) ⟨rfl, fun e => ?_⟩
  unfold stmtsOf
  rw [peek_bind, if_neg (by decide)]
  exact bind_of_error (Function.update_self ..) _

theorem callHeader_startsInHeader :
    StartsInHeader (Phrase.read 12) ⟨callHeader.tokens.drop 1, -1⟩ := by
  have hruns : Runs (conditional (Phrase.read 12)) (conditionalOf (Phrase.read 12))
      (simple (Phrase.read 12)) { tokens := callHeader.tokens } ⟨callHeader.tokens.drop 1, -1⟩ :=
    ⟨rfl, fun e => callHeader_conditional (Function.update_self ..)⟩
  exact .conditional hruns

theorem level_restored_callHeader :
    (∃ a s', conditional (Phrase.read 12) ⟨callHeader.tokens, 7⟩ = .ok (a, s') ∧ s'.level = 7) ∧
    (∃ t, callHeader.StartsStmt t ∧ 0 ≤ t.level) ∧
    ∃ t, StartsInHeader (Phrase.read 12) t ∧ t.level = -1 := by
  obtain ⟨a, s', hread⟩ :
      ∃ a s', conditional (Phrase.read 12) ⟨callHeader.tokens, 7⟩ = .ok (a, s') := ⟨_, _, rfl⟩
  exact ⟨⟨a, s', hread, level_restored.1 12 _ .conditional _ a s' hread⟩,
    ⟨_, callHeader_startsStmt, level_restored.2.1 _ _ callHeader_startsStmt⟩,
    ⟨_, callHeader_startsInHeader, level_restored.2.2 12 _ callHeader_startsInHeader⟩⟩

end GoRepl.Syntax
