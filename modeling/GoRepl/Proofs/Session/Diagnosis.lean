import GoRepl.Proofs.Diagnostics.Attribution
import GoRepl.Proofs.Session.Echo
import GoRepl.Proofs.Session.Imports

/-! # What a session reports of rejected programs

Whenever the compiler rejects the program of a session, the operation that built it reports the
lines of the compiler, with the fragments that they are about below them.

* `Event.Builds`: the log that an operation builds, and the print in it that is not entered.
* `Event.Reports`: the error that an operation reports.
* `Event.exists_answer`: an operation that builds a log answers as its build does.
* `Run.diagnosed`: the report of every rejected build of a run.
-/

namespace GoRepl.Session

open Syntax Diagnostics

/-- The print among the added entries that belongs to no fragment. -/
def lonePrint (g : List Entry) : Option Entry := g.head?.filter (·.isPrint)

/-- The operation gives this text to the session. -/
def Operation.Gives (o : Operation) (given : String) : Prop :=
  match o with
  | .submit _ fragment | .evaluateOnce fragment => given = fragment
  | .dispatch line => Session.Gives line given
  | .printOnce expression => given = expression
  | .undo | .replay => False

namespace Event

/-- The event builds the log, with this print in it that belongs to no fragment. -/
inductive Builds (e : Event) : Log → Option Entry → Prop
  | added {given : String} {g : List Entry} (gives : e.operation.Gives given)
      (adds : e.before.Adds (Text.trim given) g) :
      e.Builds ⟨e.before.log.entries ++ g⟩ (lonePrint g)
  | replayed (operation : e.operation = .replay) : e.Builds e.after.log none

/-- The operation reports an error: it fails with it, or it is among the replies. -/
def Reports (e : Event) (error : SubmitError) : Prop :=
  match e.operation with
  | .submit mode fragment => (e.before.submit e.toolchain mode fragment).value = .error error
  | .dispatch line => (e.before.dispatch e.toolchain line).value = .failure error
  | .evaluateOnce fragment => (e.before.evaluateOnce e.toolchain fragment).value = .error error
  | .printOnce expression => (e.before.printOnce e.toolchain expression).value = .error error
  | .undo => False
  | .replay => ∃ t, e.before.replay e.toolchain = .ok t ∧ .failure error ∈ t.value

/-- What the session before the event answers when it builds the log. -/
def trial (e : Event) (l : Log) : Turn Answer :=
  ({ e.before with log := l } : Session).build e.toolchain

end Event

variable {s : Session} {c : Toolchain} {e : Event} {b : Build}

/-! ## The logs that are built -/

theorem lonePrint_entered (l : Log) (n : Nat) (text : String) (shape : Shape) (g : List Entry) :
    lonePrint ((⟨n, kindOf l shape, text⟩ : Entry).withCompanion ++ g) = none := by
  have hprint : (⟨n, kindOf l shape, text⟩ : Entry).isPrint = false := (visible_entered ..).2
  simp [lonePrint, Entry.withCompanion, hprint]

theorem Adds.attributable (hn : s.Numbered) {text : String} {g : List Entry}
    (h : s.Adds text g) : Attributable ⟨s.log.entries ++ g⟩ (lonePrint g) := by
  cases h with
  | expression parsed => exact .printing hn rfl rfl
  | fragment admitted built =>
    rw [lonePrint_entered]
    exact .submissions (.next hn (submission_built s.log (s.sequence + 1) text built))

/-- What the user wrote is not empty. -/
theorem Written.text_ne {entry : Entry} (h : Written entry) (hv : entry.visible = true) :
    entry.text ≠ "" := by
  cases h with
  | fragment n admitted trimmed =>
    rintro rfl
    exact absurd admitted.nonempty nofun
  | companion n names => cases hv
  | print n text => cases hv

theorem Adds.written (hw : ∀ entry ∈ s.log.entries, Written entry) {given : String}
    {g : List Entry} (h : s.Adds (Text.trim given) g) :
    ∀ entry ∈ s.log.entries ++ g, Written entry := by
  cases h with
  | expression parsed =>
    refine List.forall_mem_append.mpr ⟨hw, fun entry he => ?_⟩
    rw [List.mem_singleton.mp he]
    exact .print _ _
  | fragment admitted built =>
    refine logInvariant_written.entered hw (Text.trim_trim given) admitted fun entry he => ?_
    unfold shownOf at he
    split at he
    · cases he
    · rw [List.mem_singleton.mp he]
      rfl

theorem expression_ne (text : String) : Echo.expression text ≠ "" := by
  unfold Echo.expression
  generalize "fmt.Printf(\"%v\", " ++ firstHelper ++ "(" ++ Text.trim text = front
  intro h
  have hlist : (front ++ "))").toList = [] := by rw [h, String.toList_empty]
  rw [String.toList_append, List.append_eq_nil_iff] at hlist
  exact absurd hlist.2 (by decide)

theorem Adds.worded (hw : ∀ entry ∈ s.log.entries, Written entry) {given : String}
    {g : List Entry} (h : s.Adds (Text.trim given) g) :
    Worded ⟨s.log.entries ++ g⟩ (lonePrint g) := by
  rintro entry he (hv | hlone)
  · exact (h.written hw entry he).text_ne hv
  · cases h with
    | expression parsed =>
      cases hlone
      exact expression_ne _
    | fragment admitted built =>
      rw [lonePrint_entered] at hlone
      cases hlone

/-- The logs that are built in a run are such that the right fragment is found for each entry. -/
theorem Event.Builds.attributable (hbefore : e.before.Reachable) (hafter : e.after.Reachable)
    {l : Log} {printed : Option Entry} (h : e.Builds l printed) :
    Attributable l printed ∧ Worded l printed := by
  cases h with
  | added _ adds => exact ⟨adds.attributable hbefore.numbered, adds.worded hbefore.written⟩
  | replayed operation =>
    refine ⟨.submissions hafter.numbered, ?_⟩
    rintro entry he (hv | hnone)
    · exact (hafter.written entry he).text_ne hv
    · cases hnone

/-! ## What an operation answers -/

theorem submitWith_files (s : Session) (c : Toolchain) (fragment : String) :
    (s.submitWith c .accumulate false fragment).session.files = s.files ∧
      (s.submitWith c .accumulate false fragment).session.workshop = s.workshop := by
  unfold submitWith
  dsimp only
  split
  · exact ⟨rfl, rfl⟩
  split
  · exact ⟨rfl, rfl⟩
  split
  · exact ⟨rfl, rfl⟩
  split
  · exact ⟨rfl, rfl⟩
  · unfold enter
    dsimp only
    split <;> exact ⟨rfl, rfl⟩

/-- Entering fragments unbuilt changes no files. -/
theorem accumulate_files (s : Session) (c : Toolchain) (fragments : List String) :
    (s.accumulate c fragments).2.files = s.files ∧
      (s.accumulate c fragments).2.workshop = s.workshop := by
  induction fragments generalizing s with
  | nil => exact ⟨rfl, rfl⟩
  | cons f fs ih =>
    obtain ⟨hf, hw⟩ := submitWith_files s c f
    have hrest := ih (s.submitWith c .accumulate false f).session
    rw [hf, hw] at hrest
    unfold accumulate
    dsimp only
    split <;> exact hrest

/-- A replay builds the log that it leaves, and replies what the build fails with. -/
theorem replay_answers {t : Turn (List Reply)} (hr : s.replay c = .ok t) (hb : t.build = some b) :
    t.build = (({ s with log := t.session.log } : Session).build c).build ∧
      ∀ error, (({ s with log := t.session.log } : Session).build c).value = .error error →
        .failure error ∈ t.value := by
  obtain ⟨fragments, -, ⟨-, hnone⟩ | ⟨hs, hbuild, hfails⟩⟩ := replay_eq_ok hr
  · rw [hnone] at hb
    cases hb
  · have hlog : t.session.log = (s.accumulate c fragments).2.log := by
      rw [hs]
      exact (build_undisturbed _ c).log_eq
    obtain ⟨hf, hw⟩ := accumulate_files s c fragments
    have hanswers : s.Answers c (s.accumulate c fragments).2.log
        ((s.accumulate c fragments).2.build c) := .of_build hw hf rfl rfl
    rw [hlog]
    refine ⟨hbuild.trans hanswers.build, fun error he => hfails error ?_⟩
    rw [hanswers.value, he]

/-- An operation that builds a program answers as the build of the log does. -/
theorem Event.exists_answer (hn : e.before.Numbered) (hb : e.build? = some b) :
    ∃ l printed, e.Builds l printed ∧ (e.trial l).build = some b ∧
      ∀ error, (e.trial l).value = .error error → e.Reports error := by
  obtain ⟨s, c, o⟩ := e
  have hadded : ∀ {given : String} {t : Turn Answer}, o.Gives given → t.build = some b →
      (∃ g, s.Adds (Text.trim given) g ∧ s.Answers c ⟨s.log.entries ++ g⟩ t) →
      ∃ l printed, Event.Builds ⟨s, c, o⟩ l printed ∧ (Event.trial ⟨s, c, o⟩ l).build = some b ∧
        ∀ error, (Event.trial ⟨s, c, o⟩ l).value = .error error → t.value = .error error := by
    rintro given t hgives ht ⟨g, hg, ha⟩
    refine ⟨_, _, .added hgives hg, ha.build.symm.trans ht, fun error he => ?_⟩
    rw [ha.value]
    exact he
  unfold Event.build? Event.turn at hb
  cases o with
  | submit mode fragment =>
    rw [Operation.turn, Turn.map_build] at hb
    exact hadded rfl hb (submitWith_answers hn hb)
  | dispatch line =>
    rw [Operation.turn, Turn.map_build] at hb
    obtain ⟨given, g, t, hgives, hg, ha, ht⟩ := dispatch_answers hn hb
    rw [ht, Turn.map_build] at hb
    obtain ⟨l, printed, hbuilds, hbuild, hvalue⟩ := hadded hgives hb ⟨g, hg, ha⟩
    refine ⟨l, printed, hbuilds, hbuild, fun error he => ?_⟩
    change (s.dispatch c line).value = .failure error
    have hanswer : (t.map Reply.ofAnswer).value = Reply.ofAnswer t.value := rfl
    rw [ht, hanswer, hvalue error he, Reply.ofAnswer]
  | evaluateOnce fragment =>
    rw [Operation.turn, Turn.map_build] at hb
    exact hadded rfl hb (evaluateOnce_answers hn hb)
  | printOnce expression =>
    rw [Operation.turn, Turn.map_build] at hb
    exact hadded rfl hb (printOnce_answers hn hb)
  | undo =>
    rw [Operation.turn, Turn.map_build, undo_build] at hb
    cases hb
  | replay =>
    have hafter : (Event.mk s c .replay).after = (Operation.replay.turn s c).session := rfl
    have hbuilds := Event.Builds.replayed (e := ⟨s, c, .replay⟩) rfl
    rw [hafter] at hbuilds
    unfold Operation.turn at hb hbuilds
    cases hr : s.replay c with
    | error _ =>
      simp only [hr] at hb
      cases hb
    | ok t =>
      simp only [hr, Turn.map_build, Turn.map_session] at hb hbuilds
      obtain ⟨hbuild, hfails⟩ := replay_answers hr hb
      exact ⟨_, _, hbuilds, hbuild.symm.trans hb, fun error he => ⟨t, hr, hfails error he⟩⟩

/-! ## Rejected builds -/

/-- A rejected build fails with what the compiler has put out. -/
theorem build_rejected {d : String} (hb : (s.build c).build = some b)
    (hd : b.outcome = .rejected d) : ∃ output, s.workshop.Rejects c s.files b.program output ∧
      (s.build c).value =
        .error (.compile (annotate (filterNoise output) (Program.ofLog s.log) s.log)) := by
  have hprogram := build_program hb
  obtain ⟨hout, output, hrejects, rfl⟩ := Workshop.build_rejected hb hd
  rw [← hprogram] at hrejects
  refine ⟨output, hrejects, ?_⟩
  change answerOf _ _ (s.workshop.build c s.files (Program.ofLog s.log).text).1 = _
  rw [hout]
  rfl

theorem Run.reachable_of_mem {start : Session} {es : List Event} (run : Run start es s)
    (hnew : start.IsNew) (he : e ∈ es) : e.before.Reachable ∧ e.after.Reachable := by
  induction run with
  | nil => cases he
  | snoc run c o ih =>
    rcases List.mem_append.mp he with hold | hlast
    · exact ih hold
    · rw [List.mem_singleton.mp hlast]
      exact ⟨⟨start, _, hnew, run⟩, start, _, hnew, run.snoc c o⟩

/-- Whenever the compiler rejects a program that a run has built, the operation reports the lines of
the compiler's output but headers and blank lines at the ends.  Below each that names a place in the
program, and below no other, stands the first line of the fragment that is there. -/
theorem Run.diagnosed {start : Session} {es : List Event} (run : Run start es s)
    (hnew : start.IsNew) (he : e ∈ es) (hb : e.build? = some b) {d : String}
    (hd : b.outcome = .rejected d) :
    ∃ l printed output message, e.Builds l printed ∧ b.program = (Program.ofLog l).text ∧
      e.before.workshop.Rejects e.toolchain e.before.files b.program output ∧
      e.Reports (.compile message) ∧
      ('\r' ∉ output.toList → ∃ kept out, Keeps output kept ∧
        Annotated (Program.ofLog l) l printed kept out ∧
        (∀ line ∈ out, '\n' ∉ line.toList) ∧ message = Text.joinLines out) := by
  obtain ⟨hbefore, hafter⟩ := run.reachable_of_mem hnew he
  obtain ⟨l, printed, hbuilds, hbuild, hreports⟩ := Event.exists_answer hbefore.numbered hb
  unfold Event.trial at hbuild hreports
  have hprogram := build_program hbuild
  obtain ⟨output, hrejects, hvalue⟩ := build_rejected hbuild hd
  obtain ⟨hattributable, hworded⟩ := hbuilds.attributable hbefore hafter
  refine ⟨l, printed, output, _, hbuilds, hprogram, hrejects, hreports _ hvalue, fun hr => ?_⟩
  exact annotate_filterNoise hattributable hworded hr

/-! ### A call of a function that is not defined -/

/-- A toolchain that rejects every program with the same output. -/
def rejecting (output : ByteArray) : Toolchain where
  compile := fun _ _ => .ok ⟨.code 1, output, none⟩
  run := fun _ => .error .notFound

theorem output_of_rejecting {w : Workshop} {t : Tree} {report : ByteArray} {program output : String}
    (h : w.Rejects (rejecting report) t program output) :
    output = Text.Lossy.decode report := by
  obtain ⟨t₁, t₂, r, -, -, hr, -, rfl⟩ := h
  cases hr
  rfl

theorem build_of_rejecting (h : s.workshop.Writable s.files) (report : ByteArray) :
    (s.build (rejecting report)).build = some ⟨(Program.ofLog s.log).text,
        .rejected (filterNoise (Text.Lossy.decode report))⟩ ∧
      (s.build (rejecting report)).value =
        .error (.compile (annotate (filterNoise (Text.Lossy.decode report))
          (Program.ofLog s.log) s.log)) := by
  have hb : (s.build (rejecting report)).build = some ⟨(Program.ofLog s.log).text,
      .rejected (filterNoise (Text.Lossy.decode report))⟩ := by
    have hc : ∀ t, (rejecting report).compile t (Program.ofLog s.log).text =
        .ok ⟨.code 1, report, none⟩ := fun _ => rfl
    have hrejected := Workshop.build_of_rejected h hc rfl
    exact hrejected
  obtain ⟨output, hrejects, hvalue⟩ := build_rejected hb rfl
  rw [output_of_rejecting hrejects] at hvalue
  exact ⟨hb, hvalue⟩

theorem dispatch_call_rejected (report : ByteArray) :
    ((inRoot "demo").dispatch (rejecting report) "f()").build =
        some ⟨(Program.ofLog ⟨[⟨1, .statement, "f()"⟩]⟩).text,
          .rejected (filterNoise (Text.Lossy.decode report))⟩ ∧
      ((inRoot "demo").dispatch (rejecting report) "f()").value =
        .failure (.compile (annotate (filterNoise (Text.Lossy.decode report))
          (Program.ofLog ⟨[⟨1, .statement, "f()"⟩]⟩) ⟨[⟨1, .statement, "f()"⟩]⟩)) := by
  have ho : Command.ofLine "f()" = .fragment "f()" := by decide +kernel
  have ht : Text.trim "f()" = "f()" := by decide +kernel
  obtain ⟨hb, hv⟩ := build_of_rejecting (s := (inRoot "demo").extended [⟨1, .statement, "f()"⟩])
    inRoot_writable report
  rw [← keepIfBuilt_build _ _ 1 true] at hb
  rw [← keepIfBuilt_value _ _ 1 true] at hv
  simp only [dispatch, ho, Turn.map_build, submit, submitWith, ht, ofSource_call]
  exact ⟨hb, congrArg Reply.ofAnswer hv⟩

theorem diagnosed_call :
    let report := "# demo\n./demo.go:16:2: undefined: f\n"
    let e : Event := ⟨inRoot "demo", rejecting report.toUTF8, .dispatch "f()"⟩
    Run (inRoot "demo") [e] e.after ∧ ∃ l printed kept out, e.Builds l printed ∧
      Keeps report kept ∧ Annotated (Program.ofLog l) l printed kept out ∧
      Text.joinLines out = "./demo.go:16:2: undefined: f\n    at: f()" := by
  intro report e
  have run : Run (inRoot "demo") [e] e.after :=
    .snoc .nil (rejecting report.toUTF8) (.dispatch "f()")
  have hdecode : Text.Lossy.decode report.toUTF8 = report := by decide +kernel
  obtain ⟨hbuild, hvalue⟩ := dispatch_call_rejected report.toUTF8
  rw [← Event.build_dispatch (e := e) rfl] at hbuild
  obtain ⟨l, printed, output, message, hbuilds, -, houtput, hreports, hlines⟩ :=
    Run.diagnosed run (inRoot_isNew "demo") (List.mem_singleton_self e) hbuild rfl
  rw [output_of_rejecting houtput, hdecode] at hlines
  obtain ⟨kept, out, hkeeps, hannotated, -, hmessage⟩ := hlines (by decide +kernel)
  refine ⟨run, l, printed, kept, out, hbuilds, hkeeps, hannotated, ?_⟩
  have hsame := Reply.failure.inj (hvalue.symm.trans hreports)
  rw [hdecode] at hsame
  rw [← hmessage, ← SubmitError.compile.inj hsame]
  decide +kernel

end GoRepl.Session
