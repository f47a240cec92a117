import GoRepl.Proofs.Log.Names
import GoRepl.Proofs.Session.Atomicity
import Mathlib.Logic.Function.Iterate

/-! # Undoing takes submissions back

What undoing does to the log depends on the log alone: the latest submission goes, whatever its
entries are.  So any number of submissions is taken back by as many undoings.

* `Log.undone`: the log without its latest submission.
* `Session.undoTimes`: undoing again and again.
* `Session.Event.Grows`: the event changed the log.
* `Session.Reachable.undo_inverts`: undoing after submitting, and on any log.
-/

namespace GoRepl

namespace Log

/-- The log without its latest submission. -/
def undone (l : Log) : Log := (l.lastSequence?.map l.rollback).getD l

theorem undone_submission {n : Nat} {es g : List Entry} (h : Submissions n es)
    (hg : Submission (n + 1) g) : (Log.mk (es ++ g)).undone = ⟨es⟩ := by
  have hlast := (Submissions.next h hg).lastSequence
  unfold undone
  cases hl : (Log.mk (es ++ g)).lastSequence? with
  | none =>
    have hnil := ((Submissions.next h hg).eq_nil_of_lastSequence hl).2
    exact absurd hnil (List.append_ne_nil_of_right_ne_nil es hg.ne_nil)
  | some m =>
    rw [hl, Option.getD_some] at hlast
    subst hlast
    exact h.rollback_append fun e he => hg.sequence_eq he

end Log

/-- A submission is a fragment that the user sees, its companion, and at most one print. -/
theorem Submission.eq_withCompanion {n : Nat} {g : List Entry} (h : Submission n g) :
    ∃ (e : Entry) (shown : List Entry), g = e.withCompanion ++ shown ∧ e.visible = true ∧
      shown.length ≤ 1 ∧ ∀ p ∈ shown, p.isPrint = true := by
  have hdecl : ∀ {names : List String} (text : String), names ≠ [] →
      (⟨n, .declaration names, text⟩ : Entry).withCompanion =
        [⟨n, .declaration names, text⟩, ⟨n, .companion, Entry.useText names⟩] := by
    intro names text hn
    have he : names.isEmpty = false := by simpa using hn
    simp [Entry.withCompanion, Entry.companion?, Entry.declared, he]
  have hprint : ∀ shown : String, ∀ p ∈ [(⟨n, .print, shown⟩ : Entry)], p.isPrint = true := by
    intro shown p hp
    rw [List.mem_singleton.mp hp]
    rfl
  have hnone : ∀ p ∈ ([] : List Entry), p.isPrint = true := List.forall_mem_nil _
  cases h with
  | imports paths text =>
    exact ⟨⟨n, .imports paths, text⟩, [], rfl, rfl, Nat.zero_le 1, hnone⟩
  | statement text => exact ⟨⟨n, .statement, text⟩, [], rfl, rfl, Nat.zero_le 1, hnone⟩
  | assignment text => exact ⟨⟨n, .assignment, text⟩, [], rfl, rfl, Nat.zero_le 1, hnone⟩
  | shownAssignment text shown =>
    exact ⟨⟨n, .assignment, text⟩, [⟨n, .print, shown⟩], rfl, rfl, Nat.le_refl 1, hprint shown⟩
  | declaration names text named =>
    refine ⟨⟨n, .declaration names, text⟩, [], ?_, rfl, Nat.zero_le 1, hnone⟩
    rw [hdecl text named, List.append_nil]
  | shownDeclaration names text shown named =>
    refine ⟨⟨n, .declaration names, text⟩, [⟨n, .print, shown⟩], ?_, rfl, Nat.le_refl 1,
      hprint shown⟩
    rw [hdecl text named]
    rfl

namespace Session

variable {s : Session} {c : Toolchain}

/-! ## Undoing once -/

theorem undo_log (s : Session) : s.undo.session.log = s.log.undone := by
  unfold undo Log.undone
  split
  · rename_i hl
    rw [hl]
    rfl
  · rename_i n hl
    rw [hl]
    exact persist_log _

/-- A log that is made of submissions says how many there are. -/
theorem Numbered.sequence_eq_of_log {s' : Session} (h : s.Numbered) (h' : s'.Numbered)
    (hl : s'.log = s.log) : s'.sequence = s.sequence := by
  rw [← Submissions.lastSequence h', ← Submissions.lastSequence h]
  exact congrArg (fun l : Log => l.lastSequence?.getD 0) hl

/-- A submission that changes the log enters a group of entries behind it. -/
theorem submit_grows (h : s.Numbered) {mode : Mode} {fragment : String}
    (hl : (s.submit c mode fragment).session.log ≠ s.log) :
    ∃ g, s.Commits c mode true g (s.submit c mode fragment) :=
  (submit_cases h mode fragment).resolve_left fun hu => hl hu.log_eq

theorem Commits.undone_log {mode : Mode} {persisted : Bool} {g : List Entry} {t : Turn Answer}
    (hc : s.Commits c mode persisted g t) (h : s.Numbered) : t.session.log.undone = s.log := by
  rw [hc.log_eq]
  exact Log.undone_submission h hc.submission

theorem saved_transcript (s : Session) (persisted : Bool) :
    (s.saved persisted).transcript = s.transcript := by
  unfold saved
  split
  · rw [persist_eq]
  · rfl

theorem Commits.transcript_eq {mode : Mode} {persisted : Bool} {g : List Entry} {t : Turn Answer}
    (hc : s.Commits c mode persisted g t) : t.session.transcript = s.transcript := by
  obtain ⟨files, -, hs⟩ := hc.session
  rw [hs, saved_transcript]
  rfl

/-- A transcript that can be saved holds the fragments afterwards. -/
theorem readText_persist {path : String} (ht : s.transcript = some path)
    (hw : (Transcript.save s.files path s.fragments).isOk = true) :
    s.persist.files.readText [] path = .ok (Transcript.ofFragments s.fragments) := by
  unfold persist
  rw [ht]
  dsimp only
  cases hsave : Transcript.save s.files path s.fragments with
  | error e =>
    rw [hsave] at hw
    cases hw
  | ok files => exact Tree.readText_of_write hsave

/-- Undoing a submission saves the transcript that the session before it has. -/
theorem Commits.readText_undo {mode : Mode} {persisted : Bool} {g : List Entry} {t : Turn Answer}
    (hc : s.Commits c mode persisted g t) (h : s.Numbered) {path : String}
    (ht : s.transcript = some path)
    (hw : (Transcript.save t.session.files path s.fragments).isOk = true) :
    t.session.undo.session.files.readText [] path = .ok (Transcript.ofFragments s.fragments) := by
  rcases undo_cases (hc.numbered h) with ⟨hnil, -⟩ | ⟨n, es, g', -, -, -, -, hs⟩
  · rw [hc.log_eq] at hnil
    exact absurd hnil (List.append_ne_nil_of_right_ne_nil _ hc.submission.ne_nil)
  -- the log that is saved is the one that undoing leaves, which is that of `s`
  have hlog : (⟨es⟩ : Log) = s.log := by
    have hback := (undo_log t.session).trans (hc.undone_log h)
    rwa [hs, persist_log] at hback
  have hfragments : ({ t.session with log := ⟨es⟩, sequence := n } : Session).fragments =
      s.fragments := by
    rw [fragments, fragments, ← hlog]
  rw [hs, ← hfragments]
  refine readText_persist (hc.transcript_eq.trans ht) ?_
  rw [hfragments]
  exact hw

/-- Undoing takes the latest submission off a log that has one. -/
theorem undo_latest (h : s.Numbered) (hne : s.log.entries ≠ []) :
    ∃ (es : List Entry) (e : Entry) (shown : List Entry),
      s.log.entries = es ++ (e.withCompanion ++ shown) ∧ e.visible = true ∧ shown.length ≤ 1 ∧
      (∀ p ∈ shown, p.isPrint = true) ∧
      (∀ e' ∈ e.withCompanion ++ shown, e'.sequence = s.sequence) ∧
      (∀ e' ∈ es, e'.sequence < s.sequence) ∧ s.undo.session.log = ⟨es⟩ := by
  rcases undo_cases h with ⟨hnil, -⟩ | ⟨n, es, g, hn, hlog, hes, hg, hs⟩
  · exact absurd hnil hne
  obtain ⟨e, shown, rfl, hv, hlen, hprint⟩ := hg.eq_withCompanion
  refine ⟨es, e, shown, hlog, hv, hlen, hprint, ?_, ?_, ?_⟩
  · intro e' he'
    rw [hn]
    exact hg.sequence_eq he'
  · intro e' he'
    have := hes.sequence_le he'
    omega
  · rw [hs, persist_log]

/-! ## Undoing again and again -/

/-- The session after `n` undoings. -/
def undoTimes (n : Nat) (s : Session) : Session := (fun t : Session => t.undo.session)^[n] s

theorem undoTimes_log (n : Nat) (s : Session) : (s.undoTimes n).log = Log.undone^[n] s.log := by
  have hsemi : Function.Semiconj Session.log (fun t : Session => t.undo.session) Log.undone :=
    undo_log
  exact hsemi.iterate_right n s

theorem undoTimes_numbered (n : Nat) (h : s.Numbered) : (s.undoTimes n).Numbered := by
  induction n generalizing s with
  | zero => exact h
  | succ n ih => exact ih (undo_numbered h)

/-- The event changed the log. -/
def Event.Grows (e : Event) : Prop := e.after.log ≠ e.before.log

instance (e : Event) : Decidable e.Grows := inferInstanceAs (Decidable (_ ≠ _))

/-- Undoing takes back a submission that changed the log. -/
theorem Event.undone_submit {e : Event} {mode : Mode} {fragment : String} (hg : e.Grows)
    (ho : e.operation = .submit mode fragment) (h : e.before.Numbered) :
    e.after.log.undone = e.before.log := by
  have hafter : e.after = (e.before.submit e.toolchain mode fragment).session := by
    rw [after, turn, ho, Operation.turn, Turn.map_session]
  rw [Grows, hafter] at hg
  obtain ⟨g, hc⟩ := submit_grows h hg
  rw [hafter]
  exact hc.undone_log h

/-- As many undoings as there were submissions that changed the log lead back to the log that was
there before. -/
theorem Run.undone_log {s' : Session} {es : List Event} (run : Run s es s') (h : s.Numbered)
    (hes : ∀ e ∈ es, ∃ mode fragment, e.operation = .submit mode fragment) :
    Log.undone^[es.countP fun e => decide e.Grows] s'.log = s.log := by
  induction run with
  | nil => rfl
  | snoc run c o ih =>
    rename_i es t
    have hbefore := ih fun e he => hes e (List.mem_append_left _ he)
    obtain ⟨mode, fragment, ho⟩ := hes _ (List.mem_append_right es List.mem_cons_self)
    rw [List.countP_append, List.countP_singleton]
    by_cases hg : Event.Grows ⟨t, c, o⟩
    · -- the latest submission is taken back first, the earlier ones as before
      rw [if_pos (decide_eq_true hg), Function.iterate_succ_apply]
      exact (congrArg _ (Event.undone_submit hg ho (run.numbered h))).trans hbefore
    · rw [if_neg (by simpa using hg)]
      exact (congrArg _ (not_not.mp hg)).trans hbefore

/-! ## Undoing as the inverse of submitting -/

/-- Undoing an accepted submission that changed the log gives back the log, the count, and the text
of a transcript that can be saved.  On any log it takes off the latest fragment with its companion
and its print, and with it only names that were declared last.  As many undoings as submissions
changed the log lead back to where these began, at the start of the session to an empty log. -/
theorem Reachable.undo_inverts (h : s.Reachable) :
    (∀ (c : Toolchain) (mode : Mode) (fragment output : String),
      (s.submit c mode fragment).value = .ok output →
      (s.submit c mode fragment).session.log ≠ s.log →
        let t := (s.submit c mode fragment).session
        t.undo.session.log = s.log ∧ t.undo.session.sequence = s.sequence ∧
          ∀ path ∈ s.transcript, (Transcript.save t.files path s.fragments).isOk = true →
            t.undo.session.files.readText [] path =
              .ok (String.join (s.fragments.map (· ++ "\n")))) ∧
    (s.log.entries ≠ [] → ∃ (es : List Entry) (e : Entry) (shown : List Entry),
      s.log.entries = es ++ (e.withCompanion ++ shown) ∧ e.visible = true ∧ shown.length ≤ 1 ∧
        (∀ p ∈ shown, p.isPrint = true) ∧
        (∀ e' ∈ e.withCompanion ++ shown, e'.sequence = s.sequence) ∧
        (∀ e' ∈ es, e'.sequence < s.sequence) ∧ s.undo.session.log = ⟨es⟩ ∧
        s.undo.session.log.declaredNames <+: s.log.declaredNames) ∧
    ∀ es s', Run s es s' → (∀ e ∈ es, ∃ mode fragment, e.operation = .submit mode fragment) →
      let u := s'.undoTimes (es.countP fun e => decide e.Grows)
      u.log = s.log ∧ u.sequence = s.sequence := by
  have hn := h.numbered
  refine ⟨?_, ?_, ?_⟩
  · intro c mode fragment output _ hl
    obtain ⟨g, hc⟩ := submit_grows hn hl
    have hlog := (undo_log _).trans (hc.undone_log hn)
    dsimp only
    refine ⟨hlog, hn.sequence_eq_of_log (undo_numbered (hc.numbered hn)) hlog, ?_⟩
    intro path hpath hw
    rw [← Text.unlines, ← Transcript.ofFragments]
    exact hc.readText_undo hn hpath hw
  · intro hne
    obtain ⟨es, e, shown, hes, hv, hlen, hprint, hlast, hbefore, hlog⟩ := undo_latest hn hne
    refine ⟨es, e, shown, hes, hv, hlen, hprint, hlast, hbefore, hlog, ?_⟩
    have hprefix := Log.declaredNames_prefix es (e.withCompanion ++ shown)
    rw [hlog]
    rwa [← hes] at hprefix
  · intro es s' run hes u
    have hlog : u.log = s.log := by
      rw [undoTimes_log]
      exact run.undone_log hn hes
    exact ⟨hlog, hn.sequence_eq_of_log (undoTimes_numbered _ (run.numbered hn)) hlog⟩

theorem undo_inverts_declaration :
    let c := Toolchain.unavailable .notFound
    let s := ((inRoot "demo").submit c .accumulate "x := 1").session
    let t := (s.submit c .accumulate "y := x").session
    s.Reachable ∧ t.log.declaredNames = ["x", "y"] ∧ t.undo.session.log = s.log ∧
      t.undo.session.sequence = 1 ∧
      t.undo.session.files.readText [] "/demo.changes" = .ok "x := 1\n" ∧
      s.undo.session.log.declaredNames <+: ["x"] ∧ (t.undoTimes 1).log = s.log := by
  intro c s t
  have hr : s.Reachable := (inRoot_isNew "demo").reachable_turn c (.submit .accumulate "x := 1")
  have hpath : s.transcript = some "/demo.changes" := by decide +kernel
  have hlog : t.log ≠ s.log := by decide +kernel
  have hseq : s.sequence = 1 := by decide +kernel
  have hnames : s.log.declaredNames = ["x"] := by decide +kernel
  have hfragments : String.join (s.fragments.map (· ++ "\n")) = "x := 1\n" := by decide +kernel
  have hsave : (Transcript.save t.files "/demo.changes" s.fragments).isOk = true := by
    simp only [Transcript.save, Tree.write, Tree.resolve, String.contains_char_eq]
    decide +kernel
  have hgrows : Event.Grows ⟨s, c, .submit .accumulate "y := x"⟩ := by decide +kernel
  have run : Run s [⟨s, c, .submit .accumulate "y := x"⟩] t :=
    .snoc .nil c (.submit .accumulate "y := x")
  obtain ⟨hinv, hlatest, htimes⟩ := Reachable.undo_inverts hr
  obtain ⟨g, hc⟩ := submit_grows hr.numbered hlog
  obtain ⟨output, hvalue⟩ := hc.accepted
  obtain ⟨hback, hcount, htext⟩ := hinv c .accumulate "y := x" output hvalue hlog
  obtain ⟨es, e, shown, -, -, -, -, -, -, -, hprefix⟩ := hlatest (by decide +kernel)
  obtain ⟨hundone, -⟩ := htimes _ t run fun e he =>
    ⟨.accumulate, "y := x", by rw [List.mem_singleton.mp he]⟩
  refine ⟨hr, by decide +kernel, hback, hcount.trans hseq, ?_, hnames ▸ hprefix, ?_⟩
  · rw [← hfragments]
    exact htext _ hpath hsave
  · rwa [List.countP_singleton, if_pos (decide_eq_true hgrows)] at hundone

end Session

end GoRepl
