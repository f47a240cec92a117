import GoRepl.Proofs.Console.Restoration
import GoRepl.Proofs.Program.Echo

/-! # Programs that a session builds

A line of input is built together with the log that it finds: what it adds comes behind, with the
number of the next submission.  So the program runs no print but one that the line itself added.

* `Session.Adds`: what a text adds to the log for a build.
* `Session.Answers`: a turn that answers as building a log does.
* `Session.Gives`: the text that a line of input gives to the session.
* `Session.dispatch_build`, `Session.replay_build`: the programs that are built.
* `Session.Run.own_echo`: whose print a program runs.
-/

namespace GoRepl.Session

open Syntax

variable {s : Session} {c : Toolchain} {b : Build}

/-- The print that a fragment of some shape is entered with. -/
def shownOf (n : Nat) (shape : Shape) : List Entry :=
  if (echoed shape).isEmpty then [] else [⟨n, .print, Echo.values (echoed shape)⟩]

/-- What the session adds to its log when it builds a text: the print of an expression, or a
fragment with its companion and the print of the names it sets. -/
inductive Adds (s : Session) (text : String) : List Entry → Prop
  | expression {E : Expr} (parsed : parseExpression text = .ok E) :
      Adds s text [⟨s.sequence + 1, .print, Echo.expression text⟩]
  | fragment {shape : Shape} (admitted : Admits s.log text shape) (built : shape.isImport = false) :
      Adds s text ((⟨s.sequence + 1, kindOf s.log shape, text⟩ : Entry).withCompanion ++
        shownOf (s.sequence + 1) shape)

/-- A fragment that is built is a submission with its print. -/
theorem submission_built (l : Log) (n : Nat) {shape : Shape} (text : String)
    (built : shape.isImport = false) :
    Submission n ((⟨n, kindOf l shape, text⟩ : Entry).withCompanion ++ shownOf n shape) := by
  unfold shownOf
  split
  · rw [List.append_nil]
    exact submission_entered _ _ _ _
  · rename_i hn
    exact submission_shown _ _ _ _ built (by simpa using hn)

theorem Adds.next_sequence {text : String} {g : List Entry} (h : s.Adds text g) :
    g ≠ [] ∧ ∀ e ∈ g, e.sequence = s.sequence + 1 := by
  cases h with
  | expression =>
    refine ⟨nofun, fun e he => ?_⟩
    rw [List.mem_singleton.mp he]
  | fragment _ built =>
    have hg := submission_built s.log (s.sequence + 1) text built
    exact ⟨hg.ne_nil, fun e he => hg.sequence_eq he⟩

/-! ## What is built -/

theorem build_program (hb : (s.build c).build = some b) :
    b.program = (Program.ofLog s.log).text := by
  change (s.workshop.build c s.files (Program.ofLog s.log).text).2.1 = some b at hb
  unfold Workshop.build at hb
  dsimp only at hb
  split at hb
  · cases hb
    rfl
  · cases hb

theorem keepIfBuilt_build (s : Session) (c : Toolchain) (n : Nat) (persisted : Bool) :
    (s.keepIfBuilt c n persisted).build = (s.build c).build := by
  unfold keepIfBuilt
  dsimp only
  split
  · split <;> rfl
  · rfl

theorem undo_build (s : Session) : s.undo.build = none := by
  unfold undo
  split <;> rfl

/-- The turn answers as building the program of the log `l` does. -/
structure Answers (s : Session) (c : Toolchain) (l : Log) (t : Turn Answer) : Prop where
  build : t.build = (({ s with log := l } : Session).build c).build
  value : t.value = (({ s with log := l } : Session).build c).value

theorem Answers.program {l : Log} {t : Turn Answer} (h : s.Answers c l t)
    (hb : t.build = some b) : b.program = (Program.ofLog l).text := by
  rw [h.build] at hb
  exact build_program (s := { s with log := l }) hb

/-- What a build answers depends on the log, the workshop and the files only. -/
theorem Answers.of_build {r : Session} {t : Turn Answer} (hw : r.workshop = s.workshop)
    (hf : r.files = s.files) (hb : t.build = (r.build c).build)
    (hv : t.value = (r.build c).value) : s.Answers c r.log t := by
  unfold Session.build at hb hv
  rw [hw, hf] at hb hv
  exact ⟨hb, hv⟩

theorem keepIfBuilt_value (s : Session) (c : Toolchain) (n : Nat) (persisted : Bool) :
    (s.keepIfBuilt c n persisted).value = (s.build c).value := by
  unfold keepIfBuilt
  dsimp only
  split
  · split <;> rfl
  · rfl

theorem printOnce_answers (h : s.Numbered) {expression : String}
    (hb : (s.printOnce c expression).build = some b) :
    ∃ g, s.Adds (Text.trim expression) g ∧
      s.Answers c ⟨s.log.entries ++ g⟩ (s.printOnce c expression) := by
  unfold printOnce at hb ⊢
  dsimp only at hb ⊢
  cases hE : parseExpression (Text.trim expression) with
  | error e =>
    simp only [hE] at hb
    cases hb
  | ok E =>
    have happ := log_append (g := [])
      (e := ⟨s.sequence + 1, .print, Echo.expression (Text.trim expression)⟩) h (by simp) rfl
    rw [List.append_nil, List.nil_append, withCompanion_print] at happ
    refine ⟨_, .expression hE, ?_⟩
    rw [← happ]
    exact .of_build (r := s.append _) rfl rfl rfl rfl

theorem enter_answers (h : s.Numbered) {mode : Mode} {persisted : Bool} {text : String}
    {shape : Shape} (hb : (s.enter c mode persisted text shape).build = some b) :
    shape.isImport = false ∧ s.Answers c ⟨s.log.entries ++
      ((⟨s.sequence + 1, kindOf s.log shape, text⟩ : Entry).withCompanion ++
        shownOf (s.sequence + 1) shape)⟩ (s.enter c mode persisted text shape) := by
  unfold enter at hb ⊢
  dsimp only at hb ⊢
  rw [append_entry h rfl] at hb ⊢
  split at hb
  · cases hb
  · rename_i hi
    refine ⟨by simpa using hi, ?_⟩
    split at hb
    · cases hb
    · rename_i hm
      rw [if_neg hi, if_neg hm, shownOf]
      split
      · rw [List.append_nil]
        exact .of_build (r := s.extended _) rfl rfl (keepIfBuilt_build ..) (keepIfBuilt_value ..)
      · rw [append_shown h (submission_entered _ _ _ _)]
        exact .of_build (r := s.extended _) rfl rfl (keepIfBuilt_build ..) (keepIfBuilt_value ..)

theorem submitWith_answers (h : s.Numbered) {mode : Mode} {persisted : Bool} {fragment : String}
    (hb : (s.submitWith c mode persisted fragment).build = some b) :
    ∃ g, s.Adds (Text.trim fragment) g ∧
      s.Answers c ⟨s.log.entries ++ g⟩ (s.submitWith c mode persisted fragment) := by
  have hprint : (s.printValue c mode (Text.trim fragment)).build = some b →
      ∃ g, s.Adds (Text.trim fragment) g ∧
        s.Answers c ⟨s.log.entries ++ g⟩ (s.printValue c mode (Text.trim fragment)) := by
    intro hb
    cases mode with
    | buildAndRun =>
      obtain ⟨g, hg, ha⟩ := printOnce_answers h hb
      rw [Text.trim_trim] at hg
      exact ⟨g, hg, ha⟩
    | accumulate => cases hb
  unfold submitWith at hb ⊢
  dsimp only at hb ⊢
  split at hb
  · cases hb
  · rename_i hempty
    rw [if_neg hempty]
    split at hb
    · rename_i hdeclared
      rw [if_pos hdeclared]
      exact hprint hb
    · rename_i hdeclared
      rw [if_neg hdeclared]
      cases hshape : Shape.ofSource (Text.trim fragment) with
      | error e =>
        simp only [hshape] at hb
        cases hb
      | ok shape =>
        simp only [hshape] at hb ⊢
        split at hb
        · rename_i huse
          rw [if_pos huse]
          exact hprint hb
        · rename_i hkept
          rw [if_neg hkept]
          obtain ⟨hi, ha⟩ := enter_answers h hb
          have hadmits : Admits s.log (Text.trim fragment) shape :=
            ⟨by simpa using hempty, by simpa using hdeclared, hshape, hkept⟩
          exact ⟨_, .fragment hadmits hi, ha⟩

theorem evaluateOnce_answers (h : s.Numbered) {fragment : String}
    (hb : (s.evaluateOnce c fragment).build = some b) :
    ∃ g, s.Adds (Text.trim fragment) g ∧
      s.Answers c ⟨s.log.entries ++ g⟩ (s.evaluateOnce c fragment) := by
  unfold evaluateOnce at hb ⊢
  dsimp only at hb
  obtain ⟨g, hg, ha⟩ := submitWith_answers h hb
  exact ⟨g, hg, ha.build, ha.value⟩

/-- The line gives this text to the session: as a fragment, or to be evaluated or printed once. -/
def Gives (line given : String) : Prop :=
  Command.ofLine line = .fragment given ∨ Command.ofLine line = .evalOnce given ∨
    Command.ofLine line = .printOnce given

/-- A line of input that is built answers as the text that it gives. -/
theorem dispatch_answers (h : s.Numbered) {line : String}
    (hb : (s.dispatch c line).build = some b) :
    ∃ given g t, Gives line given ∧ s.Adds (Text.trim given) g ∧
      s.Answers c ⟨s.log.entries ++ g⟩ t ∧ s.dispatch c line = t.map .ofAnswer := by
  unfold dispatch at hb ⊢
  cases ho : Command.ofLine line with
  | undo =>
    simp only [ho, Turn.map_build, undo_build] at hb
    cases hb
  | evalOnce given =>
    simp only [ho, Turn.map_build] at hb ⊢
    obtain ⟨g, hg, ha⟩ := evaluateOnce_answers h hb
    exact ⟨given, g, _, .inr (.inl ho), hg, ha, rfl⟩
  | printOnce given =>
    simp only [ho, Turn.map_build] at hb ⊢
    obtain ⟨g, hg, ha⟩ := printOnce_answers h hb
    exact ⟨given, g, _, .inr (.inr ho), hg, ha, rfl⟩
  | fragment given =>
    simp only [ho, Turn.map_build] at hb ⊢
    obtain ⟨g, hg, ha⟩ := submitWith_answers h hb
    exact ⟨given, g, _, .inl ho, hg, ha, rfl⟩
  | _ =>
    simp only [ho] at hb
    cases hb

/-- A line of input is built behind the log that it finds. -/
theorem dispatch_build (h : s.Numbered) {line : String}
    (hb : (s.dispatch c line).build = some b) :
    ∃ given g, Gives line given ∧ s.Adds (Text.trim given) g ∧
      b.program = (Program.ofLog ⟨s.log.entries ++ g⟩).text := by
  obtain ⟨given, g, t, hgives, hg, ha, ht⟩ := dispatch_answers h hb
  rw [ht, Turn.map_build] at hb
  exact ⟨given, g, hgives, hg, ha.program hb⟩

/-! ## Replaying -/

/-- Nothing in the log is a print. -/
def Silent (s : Session) : Prop := ∀ e ∈ s.log.entries, e.isPrint = false

theorem submitWith_silent (h : s.Numbered) (hs : s.Silent) (fragment : String) :
    (s.submitWith c .accumulate false fragment).session.Numbered ∧
      (s.submitWith c .accumulate false fragment).session.Silent := by
  rcases submitWith_entered (c := c) h .accumulate false fragment with
    hu | ⟨text, shape, shown, rfl, ha, -, hc⟩
  · refine ⟨hu.numbered h, ?_⟩
    rw [Silent, hu.log_eq]
    exact hs
  · refine ⟨hc.numbered h, ?_⟩
    rw [submitWith_accumulate h ha]
    exact not_isPrint_extended hs _ _ _

theorem accumulate_silent (h : s.Numbered) (hs : s.Silent) (fragments : List String) :
    (s.accumulate c fragments).2.Silent := by
  induction fragments generalizing s with
  | nil => exact hs
  | cons f fs ih =>
    obtain ⟨hn, hsilent⟩ := submitWith_silent (c := c) h hs f
    have hrest := ih hn hsilent
    unfold accumulate
    dsimp only
    split <;> exact hrest

/-- A replay builds the log that it leaves, into which it has entered the transcript. -/
theorem replay_build {t : Turn (List Reply)} (hr : s.replay c = .ok t) (hb : t.build = some b) :
    ∃ fragments, t.session.log = (s.accumulate c fragments).2.log ∧
      b.program = (Program.ofLog t.session.log).text := by
  obtain ⟨fragments, -, ⟨-, hbuild⟩ | ⟨hs, hbuild, -⟩⟩ := replay_eq_ok hr
  · rw [hbuild] at hb
    cases hb
  · have hlog : t.session.log = (s.accumulate c fragments).2.log := by
      rw [hs]
      exact (build_undisturbed _ c).log_eq
    rw [hbuild] at hb
    refine ⟨fragments, hlog, ?_⟩
    rw [build_program hb, hlog]

theorem IsNew.replay_silent (h : s.IsNew) {t : Turn (List Reply)} (hr : s.replay c = .ok t)
    (hb : t.build = some b) :
    b.program = (Program.ofLog t.session.log).text ∧ t.session.Silent := by
  obtain ⟨fragments, hlog, hp⟩ := replay_build hr hb
  have hs : s.Silent := by
    rw [Silent, h.log]
    exact nofun
  refine ⟨hp, ?_⟩
  rw [Silent, hlog]
  exact accumulate_silent h.numbered hs fragments

/-! ## Runs -/

theorem Run.numbered_before {start s : Session} {es : List Event} (run : Run start es s)
    (h : start.Numbered) {e : Event} (he : e ∈ es) : e.before.Numbered := by
  induction run with
  | nil => cases he
  | snoc run c o ih =>
    rcases List.mem_append.mp he with he | he
    · exact ih he
    · rw [List.mem_singleton.mp he]
      exact run.numbered h

/-- In a run on lines of input, perhaps behind a replay into the new session, a program is built
from the log that the line finds and from what the line adds.  It runs no print, or one that the
line has added, and nothing behind that.  What a replay builds runs no print at all. -/
theorem Run.own_echo {start s : Session} {es : List Event} (run : Run start es s)
    (hnew : start.IsNew)
    (hes : ∀ e ∈ es, (∃ line, e.operation = .dispatch line) ∨
      e.operation = .replay ∧ e.before.IsNew)
    {e : Event} (he : e ∈ es) {b : Build} (hb : e.build? = some b) :
    (∃ line given g, e.operation = .dispatch line ∧ Gives line given ∧
      e.before.Adds (Text.trim given) g ∧
      b.program = (Program.ofLog ⟨e.before.log.entries ++ g⟩).text ∧
      (Log.mk (e.before.log.entries ++ g)).Echoes e.before.log.entries.length) ∨
    (e.operation = .replay ∧ b.program = (Program.ofLog e.after.log).text ∧
      e.after.log.placedPrints = []) := by
  have hn := run.numbered_before hnew.numbered he
  rcases hes e he with ⟨line, ho⟩ | ⟨ho, hfresh⟩
  · left
    rw [Event.build_dispatch ho] at hb
    obtain ⟨given, g, hgives, hadds, hp⟩ := dispatch_build hn hb
    obtain ⟨hne, hseq⟩ := hadds.next_sequence
    exact ⟨line, given, g, ho, hgives, hadds, hp, Submissions.echoes hn hne hseq⟩
  · right
    rw [Event.build?, Event.turn, ho, Operation.turn] at hb
    rw [Event.after, Event.turn, ho, Operation.turn]
    split at hb
    · rename_i t hr
      rw [Turn.map_build] at hb
      obtain ⟨hp, hsilent⟩ := hfresh.replay_silent hr hb
      exact ⟨rfl, hp, Log.placedPrints_eq_nil hsilent⟩
    · cases hb

/-! ### A declaration and the value of its name -/

theorem persist_writable (h : s.workshop.Writable s.files) :
    s.persist.workshop.Writable s.persist.files := by
  unfold persist
  split
  · exact h
  · split
    · rename_i files hw
      have hframe : Tree.SameOutside _ s.files files := .write (List.mem_singleton_self _) hw
      exact fun path hp => hframe.write_isOk (h path hp)
    · exact h

theorem Commits.writable {mode : Mode} {persisted : Bool} {g : List Entry} {t : Turn Answer}
    (hc : s.Commits c mode persisted g t) (h : s.workshop.Writable s.files) :
    t.session.workshop.Writable t.session.files := by
  obtain ⟨files, hf, hs⟩ := hc.session
  have hfiles : ({ s with files }.extended g).workshop.Writable files := h.sameOutside hf
  rw [hs, saved]
  split
  · exact persist_writable hfiles
  · exact hfiles

/-- Printing a value builds a program if the files of builds can be written. -/
theorem printOnce_builds (h : s.workshop.Writable s.files) {expression : String}
    (hp : (parseExpression (Text.trim expression)).isOk = true) :
    ∃ b, (s.printOnce .silent expression).build = some b := by
  unfold printOnce
  dsimp only
  split
  · rename_i e he
    rw [he] at hp
    cases hp
  · exact ⟨_, (Workshop.build_success (Workshop.build_silent h _)).2⟩

/-- The value of a declared name is printed by a program. -/
theorem dispatch_declared_builds (h : s.workshop.Writable s.files) {line text : String}
    (ho : Command.ofLine line = .fragment text) (hne : (Text.trim text).isEmpty = false)
    (hdeclared : s.log.isDeclared (Text.trim text) = true)
    (hp : (parseExpression (Text.trim (Text.trim text))).isOk = true) :
    ∃ b, (s.dispatch .silent line).build = some b := by
  have hprint : s.submit .silent .buildAndRun text = s.printOnce .silent (Text.trim text) := by
    rw [submit, submitWith, if_neg (Bool.eq_false_iff.mp hne), if_pos hdeclared, printValue]
  simp only [dispatch, ho, Turn.map_build, hprint]
  exact printOnce_builds h hp

theorem dispatch_define_writable :
    ((inRoot "demo").dispatch .silent "x := 1").session.workshop.Writable
      ((inRoot "demo").dispatch .silent "x := 1").session.files := by
  rcases dispatch_cases (c := .silent) (inRoot_isNew "demo").numbered "x := 1" with
    hu | ⟨text, g, -, ht, hc⟩ | ⟨-, -, hne⟩
  · have hsame := hu.log_eq
    rw [dispatch_define_log] at hsame
    cases hsame
  · rw [ht, Turn.map_session]
    exact hc.writable inRoot_writable
  · exact absurd rfl hne

/-- The print that came with `x := 1` stays in the log and is not run again for the value of `x`. -/
theorem own_echo_define :
    let e₁ : Event := ⟨inRoot "demo", .silent, .dispatch "x := 1"⟩
    let e₂ : Event := ⟨e₁.after, .silent, .dispatch "x"⟩
    Run (inRoot "demo") [e₁, e₂] e₂.after ∧ e₂.before.log.entries = defined ∧
      ∃ b g, e₂.build? = some b ∧ e₂.before.Adds "x" g ∧
        b.program = (Program.ofLog ⟨defined ++ g⟩).text ∧ (Log.mk (defined ++ g)).Echoes 3 := by
  intro e₁ e₂
  have run : Run (inRoot "demo") [e₁, e₂] e₂.after :=
    .snoc (.snoc .nil .silent (.dispatch "x := 1")) .silent (.dispatch "x")
  have hafter : e₂.before = ((inRoot "demo").dispatch .silent "x := 1").session :=
    Event.after_dispatch (e := e₁) rfl
  have hlog : e₂.before.log = ⟨defined⟩ := by
    rw [hafter]
    exact dispatch_define_log
  have ho : Command.ofLine "x" = .fragment "x" := by decide +kernel
  have hlines : ∀ e ∈ [e₁, e₂], (∃ line, e.operation = .dispatch line) ∨
      e.operation = .replay ∧ e.before.IsNew := by
    intro e he
    rcases List.mem_pair.mp he with rfl | rfl
    · exact .inl ⟨_, rfl⟩
    · exact .inl ⟨_, rfl⟩
  obtain ⟨b, hb⟩ : ∃ b, e₂.build? = some b := by
    have hwritable : e₂.before.workshop.Writable e₂.before.files := by
      rw [hafter]
      exact dispatch_define_writable
    have hdeclared : e₂.before.log.isDeclared (Text.trim "x") = true := by
      rw [hlog]
      decide +kernel
    rw [Event.build_dispatch (e := e₂) rfl]
    exact dispatch_declared_builds hwritable ho (by decide +kernel) hdeclared (by decide +kernel)
  rcases Run.own_echo run (inRoot_isNew "demo") hlines
    (List.mem_cons_of_mem _ List.mem_cons_self) hb
    with ⟨line, given, g, hline, hgives, hadds, hprogram, hecho⟩ | ⟨hreplay, -⟩
  · refine ⟨run, congrArg Log.entries hlog, b, g, hb, ?_, ?_, ?_⟩
    · cases hline
      unfold Gives at hgives
      rw [ho] at hgives
      rcases hgives with hg | hg | hg
      · cases hg
        have ht : Text.trim "x" = "x" := by decide +kernel
        rwa [ht] at hadds
      · cases hg
      · cases hg
    · rw [hprogram, hlog]
    · rwa [hlog] at hecho
  · cases hreplay

end GoRepl.Session
