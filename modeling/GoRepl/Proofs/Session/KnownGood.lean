import GoRepl.Proofs.Session.Run

/-! # Logs that are known to run

When only lines of input reach a session, what is in its log has been built: each fragment that is
no import, when it was entered, together with just those before it in the log.  Whatever failed,
was forgotten or was taken back in between has left no trace.

* `Session.Event.BuiltCleanly`: the event built the program of the log that it leaves.
* `Session.KnownGood`: one event entered a submission that way, and no later one touched the log up
  to it.
* `Session.dispatch_log_cases`: what a line of input does to the log.
* `Session.Run.knownGood`: every submission in the log of a run is known to be good.
-/

namespace GoRepl

/-- What is before a submission is known from the log up to it. -/
theorem Log.before_upTo (l : Log) (k : Nat) : (l.upTo k).before k = l.before k := by
  unfold Log.before Log.upTo
  rw [List.filter_filter]
  congr 1
  apply List.filter_congr
  intro e _
  rw [← Bool.decide_and]
  exact decide_eq_decide.mpr ⟨fun h => h.1, fun h => ⟨h, Nat.le_of_lt h⟩⟩

namespace Session

/-- The program of the log that the event leaves was handed to the toolchain, and ran cleanly. -/
def Event.BuiltCleanly (e : Event) : Prop :=
  ∃ output, e.build? = some ⟨(Program.ofLog e.after.log).text, .success output⟩ ∧
    e.toolchain.RunsCleanly (Program.ofLog e.after.log).text output

/-- One of the events entered the submission `k` of the log `l` behind all those before it, and
built the program of the result.  The later ones have left the log up to `k` as it is. -/
def KnownGood (es : List Event) (l : Log) (k : Nat) : Prop :=
  ∃ past e later, es = past ++ e :: later ∧ e.before.log = l.before k ∧
    e.after.log = l.upTo k ∧ e.BuiltCleanly ∧ ∀ e' ∈ later, e'.after.log.upTo k = l.upTo k

/-- An event that leaves the log up to `k` as it is keeps what is known of `k`. -/
theorem KnownGood.snoc {es : List Event} {l : Log} {k : Nat} (h : KnownGood es l k) {e : Event}
    (he : e.after.log.upTo k = l.upTo k) : KnownGood (es ++ [e]) e.after.log k := by
  obtain ⟨past, e₀, later, rfl, hbefore, hafter, hbuilt, hlater⟩ := h
  refine ⟨past, e₀, later ++ [e], by simp, ?_, ?_, hbuilt, ?_⟩
  · rw [← Log.before_upTo, he, Log.before_upTo, hbefore]
  · rw [he, hafter]
  · intro e' he'
    rcases List.mem_append.mp he' with hold | hnew
    · rw [he, hlater e' hold]
    · rw [List.mem_singleton.mp hnew]

/-! ## One line of input -/

/-- If some entry of a submission is an import, all are. -/
theorem isImport_of_importing {n : Nat} {g : List Entry} (hg : Submission n g)
    (hi : importing g = true) {e : Entry} (he : e ∈ g) : e.isImport = true := by
  cases hg with
  | imports paths text =>
    rw [List.mem_singleton.mp he]
    rfl
  | statement text => cases hi
  | assignment text => cases hi
  | shownAssignment text shown => cases hi
  | declaration names text named => cases hi
  | shownDeclaration names text shown named => cases hi

variable {e : Event} {line : String}

theorem Event.after_dispatch (ho : e.operation = .dispatch line) :
    e.after = (e.before.dispatch e.toolchain line).session := by
  rw [after, turn, ho, Operation.turn, Turn.map_session]

theorem Event.build_dispatch (ho : e.operation = .dispatch line) :
    e.build? = (e.before.dispatch e.toolchain line).build := by
  rw [build?, turn, ho, Operation.turn, Turn.map_build]

/-- A line of input leaves the log as it is, enters a submission, which is an import or was built
cleanly, or takes the latest one off. -/
theorem dispatch_log_cases (ho : e.operation = .dispatch line) (h : e.before.Numbered) :
    e.after.log = e.before.log ∨
      (∃ g, Submission (e.before.sequence + 1) g ∧
        e.after.log = ⟨e.before.log.entries ++ g⟩ ∧ (importing g = true ∨ e.BuiltCleanly)) ∨
      ∃ n es g, e.before.log = ⟨es ++ g⟩ ∧ Submissions n es ∧ Submission (n + 1) g ∧
        e.after.log = ⟨es⟩ := by
  have hafter := Event.after_dispatch ho
  rcases dispatch_cases (c := e.toolchain) h line with hu | ⟨text, g, -, ht, hc⟩ | ⟨-, ht, hne⟩
  · left
    rw [hafter]
    exact hu.log_eq
  · have hlog : e.after.log = ⟨e.before.log.entries ++ g⟩ := by
      rw [hafter, ht, Turn.map_session]
      exact hc.log_eq
    refine .inr (.inl ⟨g, hc.submission, hlog, ?_⟩)
    rcases hc.built with ⟨hi | hm, -⟩ | ⟨output, hb, hclean⟩
    · exact .inl hi
    · cases hm
    · right
      refine ⟨output, ?_, ?_⟩
      · rw [Event.build_dispatch ho, ht, Turn.map_build, hb, hlog]
      · rw [hlog]
        exact hclean
  · rcases undo_cases h with ⟨hnil, -⟩ | ⟨n, es, g, -, hes, hbefore, hg, hs⟩
    · exact absurd hnil hne
    · refine .inr (.inr ⟨n, es, g, congrArg Log.mk hes, hbefore, hg, ?_⟩)
      rw [hafter, ht, Turn.map_session, hs, persist_log]

/-- All submissions of the log but imports are known to be good. -/
def AllKnownGood (es : List Event) (l : Log) : Prop :=
  ∀ entry ∈ l.entries, entry.isImport = false → KnownGood es l entry.sequence

/-- One more line of input keeps the log known to be good. -/
theorem AllKnownGood.snoc {es : List Event} (ho : e.operation = .dispatch line)
    (h : e.before.Numbered) (hall : AllKnownGood es e.before.log) :
    AllKnownGood (es ++ [e]) e.after.log := by
  intro entry hmem hi
  rcases dispatch_log_cases ho h with hsame | ⟨g, hg, hlog, hgood⟩ | ⟨n, l, g, hl, hn, hg, hlog⟩
  · rw [hsame] at hmem
    exact (hall entry hmem hi).snoc (by rw [hsame])
  · rw [hlog] at hmem
    rcases List.mem_append.mp hmem with hold | hnew
    · refine (hall entry hold hi).snoc ?_
      rw [hlog]
      exact Submissions.upTo_append_of_le hg (Submissions.sequence_le h hold)
    · have hk : entry.sequence = e.before.sequence + 1 := hg.sequence_eq hnew
      have hbuilt : e.BuiltCleanly := by
        rcases hgood with himp | hbuilt
        · rw [isImport_of_importing hg himp hnew] at hi
          cases hi
        · exact hbuilt
      refine ⟨es, e, [], rfl, ?_, ?_, hbuilt, by simp⟩
      · rw [hlog, hk]
        exact (Submissions.before_append h hg).symm
      · rw [hlog, hk]
        exact (Submissions.upTo_self (Submissions.next h hg)).symm
  · rw [hlog] at hmem
    -- what is left behind an undoing was there before, on top of the same prefix
    have hold : entry ∈ e.before.log.entries := by
      rw [hl]
      exact List.mem_append_left g hmem
    refine (hall entry hold hi).snoc ?_
    rw [hlog, hl]
    exact (Submissions.upTo_append_of_le hg (hn.sequence_le hmem)).symm

/-! ## A fragment that builds -/

theorem keepIfBuilt_log_of_success {s : Session} {c : Toolchain} {n : Nat} {persisted : Bool}
    {output : String}
    (h : (s.workshop.build c s.files (Program.ofLog s.log).text).1 = .success output) :
    (s.keepIfBuilt c n persisted).session.log = s.log := by
  have hv : (s.build c).value = .ok output := by
    change answerOf _ _ (s.workshop.build c s.files (Program.ofLog s.log).text).1 = _
    rw [h]
    rfl
  unfold keepIfBuilt
  dsimp only
  rw [hv]
  cases persisted with
  | true => exact persist_log _
  | false => rfl

theorem inRoot_writable : (inRoot "demo").workshop.Writable (inRoot "demo").files := by
  have hall : ((inRoot "demo").workshop.staging.all.all fun path =>
      ((inRoot "demo").files.write [] path .empty).isOk) = true := by
    simp only [Tree.write, Tree.resolve, String.contains_char_eq]
    decide +kernel
  exact fun path hp => List.all_eq_true.mp hall path hp

theorem ofSource_call : Shape.ofSource "f()" = .ok (.expression .call) := by
  have h : (Shape.ofSource "f()").toOption = some (.expression .call) := by decide +kernel
  cases hs : Shape.ofSource "f()" with
  | error e =>
    rw [hs] at h
    cases h
  | ok shape =>
    rw [hs] at h
    cases h
    rfl

theorem dispatch_call_log :
    ((inRoot "demo").dispatch .silent "f()").session.log = ⟨[⟨1, .statement, "f()"⟩]⟩ := by
  have ho : Command.ofLine "f()" = .fragment "f()" := by decide +kernel
  have ht : Text.trim "f()" = "f()" := by decide +kernel
  have hb := Workshop.build_silent inRoot_writable
    (Program.ofLog ⟨[⟨1, .statement, "f()"⟩]⟩).text
  simp only [dispatch, ho, Turn.map_session, submit, submitWith, ht, ofSource_call]
  exact keepIfBuilt_log_of_success (s := (inRoot "demo").extended [⟨1, .statement, "f()"⟩]) hb

/-! ## Runs on lines of input -/

/-- In the log of a run on lines of input, each submission that is no import was entered behind
just what precedes it in the log; then the program of both was built and ran cleanly. -/
theorem Run.knownGood {start s : Session} {es : List Event} (run : Run start es s)
    (hnew : start.IsNew) (hlines : ∀ e ∈ es, ∃ line, e.operation = .dispatch line)
    {entry : Entry} (hmem : entry ∈ s.log.entries) (hi : entry.isImport = false) :
    ∃ past e later, es = past ++ e :: later ∧
      e.before.log = s.log.before entry.sequence ∧ e.after.log = s.log.upTo entry.sequence ∧
      (∃ output, e.build? =
          some ⟨(Program.ofLog (s.log.upTo entry.sequence)).text, .success output⟩ ∧
        e.toolchain.RunsCleanly (Program.ofLog (s.log.upTo entry.sequence)).text output) ∧
      ∀ e' ∈ later, e'.after.log.upTo entry.sequence = s.log.upTo entry.sequence := by
  have hall : AllKnownGood es s.log := by
    clear hmem hi
    induction run with
    | nil =>
      intro entry hmem
      rw [hnew.log] at hmem
      cases hmem
    | snoc run c o ih =>
      have hprev := ih fun e he => hlines e (List.mem_append_left _ he)
      obtain ⟨line, ho⟩ := hlines _ (List.mem_append_right _ List.mem_cons_self)
      exact AllKnownGood.snoc ho (run.numbered hnew.numbered) hprev
  obtain ⟨past, e, later, hes, hbefore, hafter, hbuilt, hlater⟩ := hall entry hmem hi
  refine ⟨past, e, later, hes, hbefore, hafter, ?_, hlater⟩
  rw [← hafter]
  exact hbuilt

theorem knownGood_call :
    let e : Event := ⟨inRoot "demo", .silent, .dispatch "f()"⟩
    Run (inRoot "demo") [e] e.after ∧ e.after.log.entries = [⟨1, .statement, "f()"⟩] ∧
      ∃ e' ∈ [e], e'.after.log = e.after.log.upTo 1 ∧ ∃ output, e'.build? =
        some ⟨(Program.ofLog (e.after.log.upTo 1)).text, .success output⟩ := by
  intro e
  have hlog : e.after.log.entries = [⟨1, .statement, "f()"⟩] := by
    rw [Event.after_dispatch (e := e) rfl]
    exact congrArg Log.entries dispatch_call_log
  have run : Run (inRoot "demo") [e] e.after := .snoc .nil .silent (.dispatch "f()")
  have hmem : ⟨1, .statement, "f()"⟩ ∈ e.after.log.entries := by
    rw [hlog]
    exact List.mem_cons_self
  have hlines : ∀ e' ∈ [e], ∃ line, e'.operation = .dispatch line :=
    fun e' he' => ⟨"f()", by rw [List.mem_singleton.mp he']⟩
  obtain ⟨past, e', later, hes, -, hafter, ⟨output, hb, -⟩, -⟩ :=
    Run.knownGood run (inRoot_isNew "demo") hlines hmem rfl
  refine ⟨run, hlog, e', ?_, hafter, output, hb⟩
  rw [hes]
  exact List.mem_append_right _ List.mem_cons_self

end Session

end GoRepl
