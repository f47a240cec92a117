import GoRepl.Proofs.Fragment.Names
import GoRepl.Proofs.Log.Contents
import GoRepl.Proofs.Session.Run
import GoRepl.Proofs.Text.Trim
import GoRepl.Proofs.Token.Trimmed

/-! # Imports go to the imports

A fragment whose first token is `import` never gets past the parser but as an import.  The import of
no packages, `import ()`, is the exception: it is entered as a statement.

* `LogInvariant`: properties of logs that every operation keeps.
* `Written`: what the entries of a log are.
* `Reachable.written`, `Reachable.firstKind?_of_isDeclared`: the entries and the declared names.
* `Reachable.imports_routed`: what becomes of such a fragment, and which entries start so.
-/

namespace GoRepl.Session

open Syntax

/-- A property of logs that empty logs have, that the front of a log has with the log, and that
entering a fragment keeps. -/
structure LogInvariant (P : List Entry → Prop) : Prop where
  empty : P []
  front : ∀ {es g}, P (es ++ g) → P es
  entered : ∀ {s : Session} {text : String} {shape : Shape} {shown : List Entry},
    P s.log.entries → Text.trim text = text → Admits s.log text shape →
    (∀ e ∈ shown, e.isPrint = true) →
    P (s.log.entries ++
      ((⟨s.sequence + 1, kindOf s.log shape, text⟩ : Entry).withCompanion ++ shown))

namespace LogInvariant

variable {P : List Entry → Prop} {s : Session} {c : Toolchain}

theorem undisturbed (h : P s.log.entries) {s' : Session} (hu : s.Undisturbed s') :
    P s'.log.entries := by
  rwa [hu.log_eq]

theorem submitWith (hP : LogInvariant P) (hn : s.Numbered) (h : P s.log.entries) (mode : Mode)
    (persisted : Bool) (fragment : String) :
    P (s.submitWith c mode persisted fragment).session.log.entries := by
  rcases submitWith_entered (c := c) hn mode persisted fragment with
    hu | ⟨text, shape, shown, rfl, hadmits, hshown, hc⟩
  · exact undisturbed h hu
  · rw [hc.log_eq]
    exact hP.entered h (Text.trim_trim fragment) hadmits hshown

theorem undo (hP : LogInvariant P) (hn : s.Numbered) (h : P s.log.entries) :
    P s.undo.session.log.entries := by
  rcases undo_cases hn with ⟨-, hs⟩ | ⟨n, es, g, -, hlog, -, -, hs⟩
  · rwa [hs]
  · rw [hs, persist_log]
    exact hP.front (hlog ▸ h)

theorem accumulate (hP : LogInvariant P) (hn : s.Numbered) (h : P s.log.entries)
    (fragments : List String) : P (s.accumulate c fragments).2.log.entries := by
  induction fragments generalizing s with
  | nil => exact h
  | cons f fs ih =>
    have hstep := ih (submitWith_numbered (c := c) hn .accumulate false f)
      (hP.submitWith hn h .accumulate false f)
    unfold Session.accumulate
    dsimp only
    split <;> exact hstep

theorem turn (hP : LogInvariant P) (hn : s.Numbered) (h : P s.log.entries) (o : Operation) :
    P (o.turn s c).session.log.entries := by
  cases o with
  | submit mode fragment =>
    rw [Operation.turn, Turn.map_session, submit]
    exact hP.submitWith hn h mode true fragment
  | dispatch line =>
    rw [Operation.turn, Turn.map_session]
    rcases dispatch_cases (c := c) hn line with hu | ⟨text, g, -, ht, -⟩ | ⟨-, ht, -⟩
    · exact undisturbed h hu
    · rw [ht, Turn.map_session, submit]
      exact hP.submitWith hn h .buildAndRun true text
    · rw [ht, Turn.map_session]
      exact hP.undo hn h
  | evaluateOnce fragment =>
    rw [Operation.turn, Turn.map_session]
    exact undisturbed h (evaluateOnce_undisturbed hn fragment)
  | printOnce expression =>
    rw [Operation.turn, Turn.map_session]
    exact undisturbed h (printOnce_undisturbed s c hn expression)
  | undo =>
    rw [Operation.turn, Turn.map_session]
    exact hP.undo hn h
  | replay =>
    rw [Operation.turn]
    split
    · rename_i t ht
      rw [Turn.map_session]
      obtain ⟨fragments, -, hu⟩ := replay_cases ht
      exact undisturbed (hP.accumulate hn h fragments) hu
    · exact h

/-- The logs of all reachable sessions have such a property. -/
theorem reachable (hP : LogInvariant P) (h : s.Reachable) : P s.log.entries := by
  obtain ⟨start, es, hnew, run⟩ := h
  induction run with
  | nil =>
    rw [hnew.log]
    exact hP.empty
  | snoc run c o ih => exact hP.turn (run.numbered hnew.numbered) ih o

end LogInvariant

/-! ## What the entries are -/

/-- An entry of a log: a fragment that some log admitted, a companion, or a print. -/
inductive Written : Entry → Prop
  | fragment (n : Nat) {l : Log} {text : String} {shape : Shape} (admitted : Admits l text shape)
      (trimmed : Text.trim text = text) : Written ⟨n, kindOf l shape, text⟩
  | companion (n : Nat) (names : List String) : Written ⟨n, .companion, Entry.useText names⟩
  | print (n : Nat) (text : String) : Written ⟨n, .print, text⟩

theorem logInvariant_written : LogInvariant fun es => ∀ e ∈ es, Written e where
  empty := nofun
  front h e he := h e (List.mem_append_left _ he)
  entered h trimmed admitted prints e he := by
    rcases List.mem_append.mp he with he | he
    · exact h e he
    rcases List.mem_append.mp he with he | he
    · rcases List.mem_cons.mp he with rfl | he
      · exact .fragment _ admitted trimmed
      · have hcompanion := Option.mem_toList.mp he
        unfold Entry.companion? at hcompanion
        split at hcompanion
        · cases hcompanion
        · cases hcompanion
          exact .companion _ _
    · obtain ⟨n, kind, text⟩ := e
      have hprint := prints _ he
      cases kind <;> first | exact .print _ _ | cases hprint

theorem Reachable.written {s : Session} (h : s.Reachable) : ∀ e ∈ s.log.entries, Written e :=
  logInvariant_written.reachable h

/-- The names of a declaration are set by the fragment. -/
theorem sets_of_declared {l : Log} {shape : Shape} {names : List String}
    (h : kindOf l shape = .declaration names) {n : String} (hn : n ∈ names) : n ∈ shape.sets := by
  unfold kindOf at h
  split at h
  · cases h
  split at h
  · cases h
    exact List.mem_append_left _ hn
  split at h
  · split at h
    · cases h
    · cases h
      exact List.mem_append_right _ hn
  · cases h

/-- A declared name is the first token of its own text. -/
theorem Reachable.firstKind?_of_isDeclared {s : Session} (h : s.Reachable) {name : String}
    (hd : s.log.isDeclared name = true) : Token.firstKind? name = some (.name name) := by
  obtain ⟨e, he, hmem⟩ := List.any_eq_true.mp hd
  have hname : name ∈ e.declared := by simpa using hmem
  cases h.written e he with
  | companion | print => cases hname
  | @fragment n l text shape admitted trimmed =>
    cases hkind : kindOf l shape with
    | declaration names =>
      rw [hkind] at hname
      exact (Shape.isName_of_sets admitted.shaped (sets_of_declared hkind hname)).firstKind?
    | _ =>
      rw [hkind] at hname
      cases hname

theorem firstKind?_useText (names : List String) :
    Token.firstKind? (Entry.useText names) = some (.name useHelper) := by
  have hlist : (Entry.useText names).toList =
      'g' :: ("oloopUse".toList ++ '(' :: (", ".intercalate names ++ ")").toList) := by
    simp only [Entry.useText, String.toList_append]
    rfl
  have htake : ("oloopUse".toList ++ '(' :: (", ".intercalate names ++ ")").toList).takeWhile
      Number.isWordChar = "oloopUse".toList := by
    have hword : "oloopUse".toList.all Number.isWordChar = true := by decide
    rw [List.takeWhile_append_of_pos (List.all_eq_true.mp hword),
      List.takeWhile_cons_of_neg (by decide)]
    rfl
  rw [Token.firstKind?, hlist, Piece.cutBefore_cons, Piece.first_word (by decide), htake]
  rfl

/-! ## Fragments that start with `import` -/

theorem kindOf_imports (l : Log) (paths : List String) : kindOf l (.imports paths) =
    if paths = [] then .statement else .imports paths := by
  cases paths <;> rfl

/-- Of the entries that the main function holds, only imports of no packages start with `import`,
and they are statements. -/
theorem Written.of_import {e : Entry} (h : Written e) (hb : e.inBody = true)
    (hk : Token.firstKind? e.text = some (.keyword .importKw)) :
    e.kind = .statement ∧ parseImports e.text = .ok [] := by
  cases h with
  | companion n names =>
    rw [firstKind?_useText] at hk
    cases hk
  | print => cases hb
  | @fragment n l text shape admitted trimmed =>
    rcases Shape.imports_of_firstKind? hk with ⟨f, hf⟩ | ⟨specs, hspecs, hshape⟩
    · rw [admitted.shaped] at hf
      cases hf
    · obtain rfl : shape = .imports (specs.map (·.path)) :=
        Except.ok.inj (admitted.shaped.symm.trans hshape)
      cases specs with
      | nil => exact ⟨rfl, hspecs⟩
      | cons spec specs => cases hb

/-- The import of one or more packages is entered unbuilt. -/
theorem enter_imports {s : Session} (h : s.Numbered) (c : Toolchain) (mode : Mode)
    (persisted : Bool) (text : String) {paths : List String} (hne : paths ≠ []) :
    let t := s.enter c mode persisted text (.imports paths)
    t.value = .ok "" ∧ t.build = none ∧
      t.session.log.entries = s.log.entries ++ [⟨s.sequence + 1, .imports paths, text⟩] := by
  have hkind : kindOf s.log (.imports paths) = .imports paths := by
    rw [kindOf_imports, if_neg hne]
  have himport : (Shape.imports paths).isImport = true := by
    simp [Shape.isImport, Shape.imported, hne]
  have happ := append_entry h (e := ⟨s.sequence + 1, .imports paths, text⟩) rfl
  unfold enter
  dsimp only
  rw [hkind, happ, if_pos himport]
  refine ⟨rfl, rfl, ?_⟩
  cases persisted with
  | true => exact congrArg Log.entries (persist_log _)
  | false => rfl

/-- The import of no packages is a statement. -/
theorem enter_noImports {s : Session} (h : s.Numbered) (c : Toolchain) (mode : Mode)
    (persisted : Bool) (text : String) :
    let t := s.enter c mode persisted text (.imports [])
    t.session.log = s.log ∨
      t.session.log.entries = s.log.entries ++ [⟨s.sequence + 1, .statement, text⟩] := by
  have happ := append_entry h (e := ⟨s.sequence + 1, .statement, text⟩) rfl
  have hg : Submission (s.sequence + 1) [⟨s.sequence + 1, .statement, text⟩] := .statement text
  unfold enter
  dsimp only
  rw [kindOf_imports, if_pos rfl, happ, if_neg (by decide)]
  split
  · exact .inr rfl
  · rw [if_pos (by decide)]
    rcases keepIfBuilt_cases (c := c) h persisted hg with hu | hc
    · exact .inl hu.log_eq
    · exact .inr (congrArg Log.entries hc.log_eq)

/-- A fragment whose first token is `import` is rejected and changes nothing, or it is entered as
one import without a build; if it imports no packages, it is entered as a statement.  So nothing
that the main function holds starts with `import`, except for such statements. -/
theorem Reachable.imports_routed {s : Session} (h : s.Reachable) :
    (∀ (c : Toolchain) (mode : Mode) (fragment : String),
      Token.firstKind? fragment = some (.keyword .importKw) →
      let text := Text.trim fragment
      let t := s.submit c mode fragment
      (∃ e, t = s.unchanged (.error (.parse e))) ∨
      (∃ specs, parseImports text = .ok specs ∧ specs ≠ [] ∧ t.value = .ok "" ∧ t.build = none ∧
        t.session.log.entries =
          s.log.entries ++ [⟨s.sequence + 1, .imports (specs.map (·.path)), text⟩]) ∨
      parseImports text = .ok [] ∧ (t.session.log = s.log ∨
        t.session.log.entries = s.log.entries ++ [⟨s.sequence + 1, .statement, text⟩])) ∧
    ∀ e ∈ s.log.entries, e.inBody = true →
      Token.firstKind? e.text = some (.keyword .importKw) →
      e.kind = .statement ∧ parseImports e.text = .ok [] := by
  refine ⟨fun c mode fragment hf => ?_, fun e he => (h.written e he).of_import⟩
  have hk := Token.firstKind?_trim hf
  have hempty : (Text.trim fragment).isEmpty = false := by
    rw [← Bool.not_eq_true]
    intro hempty
    rw [String.isEmpty_iff.mp hempty, Token.firstKind?, String.toList_empty,
      Piece.cutBefore_nil] at hk
    cases hk
  have hundeclared : s.log.isDeclared (Text.trim fragment) = false := by
    rw [← Bool.not_eq_true]
    intro hd
    rw [h.firstKind?_of_isDeclared hd] at hk
    cases hk
  dsimp only
  rcases Shape.imports_of_firstKind? hk with ⟨e, he⟩ | ⟨specs, hspecs, hshape⟩
  · left
    refine ⟨e, ?_⟩
    simp only [submit, submitWith, hempty, hundeclared, he, Bool.false_eq_true, if_false]
  · have huse : (Shape.imports (specs.map (·.path))).use? ≠ some .value := by
      intro hvalue
      cases hvalue
    have hadmits : Admits s.log (Text.trim fragment) (.imports (specs.map (·.path))) :=
      ⟨hempty, hundeclared, hshape, huse⟩
    right
    rw [submit, submitWith_of_admits hadmits]
    cases specs with
    | nil => exact .inr ⟨hspecs, enter_noImports h.numbered c mode true _⟩
    | cons spec specs =>
      have hpaths : (spec :: specs).map (·.path) ≠ [] := List.cons_ne_nil _ _
      obtain ⟨hvalue, hbuild, hlog⟩ :=
        enter_imports h.numbered c mode true (Text.trim fragment) hpaths
      exact .inl ⟨spec :: specs, hspecs, List.cons_ne_nil _ _, hvalue, hbuild, hlog⟩

theorem imports_routed_os :
    let s := inRoot "demo"
    let t := s.submit (.unavailable .notFound) .accumulate " import \"os\" "
    s.Reachable ∧ Token.firstKind? " import \"os\" " = some (.keyword .importKw) ∧
      t.value = .ok "" ∧ t.build = none ∧
      t.session.log.entries = [⟨1, .imports ["os"], "import \"os\""⟩] := by
  have hr : (inRoot "demo").Reachable := ⟨_, [], inRoot_isNew "demo", .nil⟩
  have hfirst : Token.firstKind? " import \"os\" " = some (.keyword .importKw) := by
    decide +kernel
  have hspecs : parseImports (Text.trim " import \"os\" ") = .ok [⟨none, "os"⟩] := by
    decide +kernel
  have hok : ((inRoot "demo").submit (.unavailable .notFound) .accumulate
      " import \"os\" ").value.toOption = some "" := by
    decide +kernel
  refine ⟨hr, hfirst, ?_⟩
  rcases (Reachable.imports_routed hr).1 (.unavailable .notFound) .accumulate _ hfirst with
    ⟨e, ht⟩ | ⟨specs, hparse, -, hvalue, hbuild, hlog⟩ | ⟨hnone, -⟩
  · rw [ht] at hok
    cases hok
  · cases hspecs.symm.trans hparse
    have htext : Text.trim " import \"os\" " = "import \"os\"" := by decide +kernel
    rw [htext] at hlog
    exact ⟨hvalue, hbuild, hlog⟩
  · cases hspecs.symm.trans hnone

/-- The import of no packages gets into the main function. -/
theorem noImports_entered :
    let s := inRoot "demo"
    let t := s.submit (.unavailable .notFound) .accumulate "import ()"
    s.Reachable ∧ t.session.Reachable ∧
      Token.firstKind? "import ()" = some (.keyword .importKw) ∧ t.value.toOption = some "" ∧
      t.session.log.entries = [⟨1, .statement, "import ()"⟩] := by
  have hr := (inRoot_isNew "demo").reachable_turn (.unavailable .notFound)
    (.submit .accumulate "import ()")
  rw [Operation.turn, Turn.map_session] at hr
  exact ⟨⟨_, [], inRoot_isNew "demo", .nil⟩, hr, by decide +kernel⟩

end GoRepl.Session
