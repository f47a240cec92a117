import GoRepl.Proofs.Session.Run

/-! # What a session keeps

What a session keeps is its log, the count of its submissions, and the file of its transcript.  A
fragment that is rejected changes nothing of that, and neither does one that is evaluated once.

* `Session.transcriptNode?`: the file of the transcript.
* `Session.TranscriptApart`: builds do not write where the transcript is.
* `Session.SameRecord`: two sessions that keep the same.
* `Session.Reachable.atomic`: which operations keep it.
-/

namespace GoRepl.Session

/-- What is found at the path of the transcript. -/
def transcriptNode? (s : Session) : Option Node :=
  s.transcript.bind fun path => (s.files.node [] path).toOption

/-- The transcript is not one of the files of builds. -/
def TranscriptApart (s : Session) : Prop :=
  ∀ path ∈ s.transcript, Location.ofPath [] path ∉ s.workshop.staging.locations

/-- `s'` keeps what `s` keeps. -/
structure SameRecord (s s' : Session) : Prop where
  log : s'.log = s.log
  sequence : s'.sequence = s.sequence
  transcript : s'.transcript = s.transcript
  content : s'.transcriptNode? = s.transcriptNode?

variable {s s' : Session} {c : Toolchain}

theorem Undisturbed.sameRecord (h : s.Undisturbed s') (ha : s.TranscriptApart) :
    s.SameRecord s' := by
  obtain ⟨files, hf, rfl⟩ := h
  refine ⟨rfl, rfl, rfl, ?_⟩
  unfold transcriptNode?
  cases ht : s.transcript with
  | none => rfl
  | some path => exact hf.toOption_node_eq (ha path ht)

/-- A rejected submission enters nothing. -/
theorem submit_error_undisturbed (h : s.Numbered) {mode : Mode} {fragment : String}
    {e : SubmitError} (he : (s.submit c mode fragment).value = .error e) :
    s.Undisturbed (s.submit c mode fragment).session := by
  rcases submit_cases (c := c) h mode fragment with hu | ⟨g, hc⟩
  · exact hu
  · obtain ⟨output, ho⟩ := hc.accepted
    rw [ho] at he
    cases he

/-- A line that changes the log enters an accepted fragment or undoes the latest one. -/
theorem dispatch_log_ne (h : s.Numbered) {line : String}
    (hl : (s.dispatch c line).session.log ≠ s.log) :
    (∃ text output g, Command.ofLine line = .fragment text ∧
      (s.submit c .buildAndRun text).value = .ok output ∧
      (s.dispatch c line).session.log = ⟨s.log.entries ++ g⟩ ∧ Submission (s.sequence + 1) g) ∨
    (Command.ofLine line = .undo ∧ s.log.entries ≠ []) := by
  rcases dispatch_cases (c := c) h line with hu | ⟨text, g, ho, ht, hc⟩ | ⟨ho, -, hne⟩
  · exact absurd hu.log_eq hl
  · left
    obtain ⟨output, hv⟩ := hc.accepted
    refine ⟨text, output, g, ho, hv, ?_, hc.submission⟩
    rw [ht, Turn.map_session]
    exact hc.log_eq
  · exact .inr ⟨ho, hne⟩

/-- In a reachable session, a rejected submission keeps the log, the count and the transcript, and
so does whatever is evaluated or printed once.  So a line changes the log only if it is a fragment
that is accepted, or takes one back. -/
theorem Reachable.atomic (h : s.Reachable) (ha : s.TranscriptApart) (c : Toolchain) :
    (∀ mode fragment e, (s.submit c mode fragment).value = .error e →
      s.SameRecord (s.submit c mode fragment).session) ∧
    (∀ fragment, s.SameRecord (s.evaluateOnce c fragment).session) ∧
    (∀ expression, s.SameRecord (s.printOnce c expression).session) ∧
    ∀ line, (s.dispatch c line).session.log ≠ s.log →
      (∃ text output g, Command.ofLine line = .fragment text ∧
        (s.submit c .buildAndRun text).value = .ok output ∧
        (s.dispatch c line).session.log = ⟨s.log.entries ++ g⟩ ∧
        Submission (s.sequence + 1) g) ∨
      (Command.ofLine line = .undo ∧ s.log.entries ≠ []) := by
  have hn := h.numbered
  refine ⟨?_, ?_, ?_, ?_⟩
  · intro mode fragment e he
    exact (submit_error_undisturbed hn he).sameRecord ha
  · intro fragment
    exact (evaluateOnce_undisturbed hn fragment).sameRecord ha
  · intro expression
    exact (printOnce_undisturbed s c hn expression).sameRecord ha
  · intro line hl
    exact dispatch_log_ne hn hl

/-- With `x` declared, neither a malformed fragment nor an evaluation leaves a trace. -/
theorem atomic_declaration :
    let c := Toolchain.unavailable .notFound
    let s := ((inRoot "demo").submit c .accumulate "x := 1").session
    s.Reachable ∧ s.TranscriptApart ∧ s.log.declaredNames = ["x"] ∧
      (s.submit c .buildAndRun "x +").value.isOk = false ∧
      (∀ mode fragment e, (s.submit c mode fragment).value = .error e →
        s.SameRecord (s.submit c mode fragment).session) ∧
      s.SameRecord (s.evaluateOnce c "x = 2").session := by
  have hr := (inRoot_isNew "demo").reachable_turn (.unavailable .notFound)
    (.submit .accumulate "x := 1")
  have ha : (Operation.turn (inRoot "demo") (.unavailable .notFound)
      (.submit .accumulate "x := 1")).session.TranscriptApart := by
    unfold TranscriptApart
    decide +kernel
  obtain ⟨hsubmit, heval, -⟩ := Reachable.atomic hr ha (.unavailable .notFound)
  exact ⟨hr, ha, by decide +kernel, by decide +kernel, hsubmit, heval "x = 2"⟩

end GoRepl.Session
