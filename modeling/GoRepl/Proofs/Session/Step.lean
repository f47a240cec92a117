import GoRepl.Proofs.Build.Effect
import GoRepl.Proofs.Log.Submission
import GoRepl.Session.Dispatch

/-! # What one operation does to a session

An operation leaves the log as it is, enters one submission at its end, or takes the last one off.
Everything else that changes is in files.

* `Session.Numbered`: the log is made of submissions, and the session counts them.
* `Session.Undisturbed`: only files of builds have changed.
* `Session.Commits`: a submission was entered, imported or built.
* `Session.submitWith_cases`, `Session.printOnce_undisturbed`, `Session.evaluateOnce_undisturbed`,
  `Session.undo_cases`, `Session.dispatch_cases`, `Session.replay_cases`: each operation.
-/

namespace GoRepl

@[simp] theorem Turn.map_session {α β : Type} (f : α → β) (t : Turn α) :
    (t.map f).session = t.session := rfl

@[simp] theorem Turn.map_build {α β : Type} (f : α → β) (t : Turn α) :
    (t.map f).build = t.build := rfl

namespace Session

open Syntax

/-- The log holds the submissions 1 to `s.sequence`. -/
def Numbered (s : Session) : Prop := Submissions s.sequence s.log.entries

/-- `s'` is `s`, but for files of builds. -/
def Undisturbed (s s' : Session) : Prop :=
  ∃ files, Tree.SameOutside s.workshop.staging.locations s.files files ∧ s' = { s with files }

namespace Undisturbed

variable {s s' : Session}

theorem refl (s : Session) : s.Undisturbed s := ⟨s.files, .refl _ _, rfl⟩

theorem log_eq (h : s.Undisturbed s') : s'.log = s.log := by
  obtain ⟨files, -, rfl⟩ := h
  rfl

theorem sequence_eq (h : s.Undisturbed s') : s'.sequence = s.sequence := by
  obtain ⟨files, -, rfl⟩ := h
  rfl

theorem numbered (h : s.Undisturbed s') (hn : s.Numbered) : s'.Numbered := by
  rwa [Numbered, h.sequence_eq, h.log_eq]

end Undisturbed

/-! ## Saving and rolling back -/

/-- Saving the transcript changes files only. -/
theorem persist_eq (s : Session) : s.persist = { s with files := s.persist.files } := by
  unfold persist
  split
  · rfl
  · split <;> rfl

@[simp] theorem persist_log (s : Session) : s.persist.log = s.log := by rw [persist_eq]

@[simp] theorem persist_sequence (s : Session) : s.persist.sequence = s.sequence := by
  rw [persist_eq]

/-- The session with the entries `g` at the end of its log, as the next submission. -/
def extended (s : Session) (g : List Entry) : Session :=
  { s with log := ⟨s.log.entries ++ g⟩, sequence := s.sequence + 1 }

/-- The session with its transcript saved if `persisted` says so. -/
def saved (s : Session) (persisted : Bool) : Session := if persisted then s.persist else s

@[simp] theorem saved_log (s : Session) (persisted : Bool) : (s.saved persisted).log = s.log := by
  unfold saved
  split
  · exact persist_log s
  · rfl

@[simp] theorem saved_sequence (s : Session) (persisted : Bool) :
    (s.saved persisted).sequence = s.sequence := by
  unfold saved
  split
  · exact persist_sequence s
  · rfl

/-- Rolling back forgets what was entered behind the log `s` had. -/
theorem rollback_entered {s s' : Session} {g : List Entry} (h : s.Numbered)
    (hl : s'.log = ⟨s.log.entries ++ g⟩) (hg : ∀ e ∈ g, e.sequence = s.sequence + 1) :
    s'.rollback (s.sequence + 1) = { s' with log := s.log, sequence := s.sequence } := by
  have hr : s'.log.rollback (s.sequence + 1) = s.log := by
    rw [hl]
    exact h.rollback_append hg
  have hs : s.log.lastSequence?.getD 0 = s.sequence := h.lastSequence
  rw [rollback, hr, hs]

/-- A submission can take one more entry. -/
theorem log_append {s : Session} {g : List Entry} {e : Entry} (h : s.Numbered)
    (hg : ∀ e ∈ g, e.sequence = s.sequence + 1) (he : e.sequence = s.sequence + 1) :
    (Log.mk (s.log.entries ++ g)).append e = ⟨s.log.entries ++ (g ++ e.withCompanion)⟩ := by
  rw [h.append_next hg he, List.append_assoc]

/-! ## Builds -/

variable (s : Session) (c : Toolchain)

theorem build_undisturbed : s.Undisturbed (s.build c).session :=
  ⟨_, s.workshop.build_sameOutside c s.files _, rfl⟩

theorem answerOf_eq_ok {p : Program} {l : Log} {o : Outcome} {output : String}
    (h : answerOf p l o = .ok output) : o = .success output := by
  cases o with
  | success output' =>
    cases h
    rfl
  | _ => cases h

/-- A build that gives an answer ran the program of the log without any complaint. -/
theorem build_eq_ok {output : String} (h : (s.build c).value = .ok output) :
    c.RunsCleanly (Program.ofLog s.log).text output ∧
      (s.build c).build = some ⟨(Program.ofLog s.log).text, .success output⟩ :=
  Workshop.build_success (answerOf_eq_ok h)

/-! ## Printing once -/

theorem withCompanion_print (n : Nat) (text : String) :
    (⟨n, .print, text⟩ : Entry).withCompanion = [⟨n, .print, text⟩] := rfl

theorem printOnce_undisturbed (h : s.Numbered) (expression : String) :
    s.Undisturbed (s.printOnce c expression).session := by
  unfold printOnce
  dsimp only
  split
  · exact .refl s
  · have happ : s.log.append ⟨s.sequence + 1, .print, Echo.expression (Text.trim expression)⟩ =
        ⟨s.log.entries ++ [⟨s.sequence + 1, .print, Echo.expression (Text.trim expression)⟩]⟩ := by
      have := log_append (g := [])
        (e := ⟨s.sequence + 1, .print, Echo.expression (Text.trim expression)⟩) h (by simp) rfl
      rwa [List.append_nil] at this
    obtain ⟨files, hf, hb⟩ := build_undisturbed
      (s.append ⟨s.sequence + 1, .print, Echo.expression (Text.trim expression)⟩) c
    refine ⟨files, hf, ?_⟩
    dsimp only
    rw [hb]
    refine (rollback_entered h happ ?_).trans rfl
    intro e he
    rw [List.mem_singleton.mp he]

theorem printValue_undisturbed (h : s.Numbered) (mode : Mode) (expression : String) :
    s.Undisturbed (s.printValue c mode expression).session := by
  cases mode with
  | buildAndRun => exact printOnce_undisturbed s c h expression
  | accumulate => exact .refl s

/-! ## Submissions -/

/-- Whether some of the entries is an import. -/
def importing (g : List Entry) : Bool := g.any (·.isImport)

/-- The turn `t` enters the entries `g` as a submission: imports as they are, other fragments as
they are if they are only accumulated, else after a clean run of the program that they are in.  The
transcript is saved, if at all, unless the fragment is only accumulated and no import. -/
structure Commits (mode : Mode) (persisted : Bool) (g : List Entry) (t : Turn Answer) : Prop where
  submission : Submission (s.sequence + 1) g
  accepted : ∃ output, t.value = .ok output
  session : ∃ files, Tree.SameOutside s.workshop.staging.locations s.files files ∧
    t.session = ({ s with files }.extended g).saved
      (persisted && (mode == Mode.buildAndRun || importing g))
  built : (importing g = true ∨ mode = .accumulate) ∧ t.build = none ∨
    ∃ output, t.build = some ⟨(Program.ofLog ⟨s.log.entries ++ g⟩).text, .success output⟩ ∧
      c.RunsCleanly (Program.ofLog ⟨s.log.entries ++ g⟩).text output

variable {s c}

namespace Commits

variable {mode : Mode} {persisted : Bool} {g : List Entry} {t : Turn Answer}

theorem log_eq (h : s.Commits c mode persisted g t) :
    t.session.log = ⟨s.log.entries ++ g⟩ := by
  obtain ⟨files, -, hs⟩ := h.session
  rw [hs, saved_log]
  rfl

theorem sequence_eq (h : s.Commits c mode persisted g t) :
    t.session.sequence = s.sequence + 1 := by
  obtain ⟨files, -, hs⟩ := h.session
  rw [hs, saved_sequence]
  rfl

theorem numbered (h : s.Commits c mode persisted g t) (hn : s.Numbered) :
    t.session.Numbered := by
  rw [Numbered, h.log_eq, h.sequence_eq]
  exact Submissions.next hn h.submission

end Commits

/-- The entries of a fragment of some shape make up a submission, -/
theorem submission_entered (l : Log) (n : Nat) (shape : Shape) (text : String) :
    Submission n (⟨n, kindOf l shape, text⟩ : Entry).withCompanion := by
  have hdecl : ∀ names : List String, names ≠ [] →
      Submission n (⟨n, .declaration names, text⟩ : Entry).withCompanion := by
    intro names hn
    have he : names.isEmpty = false := by simpa using hn
    simpa [Entry.withCompanion, Entry.companion?, Entry.declared, he] using
      Submission.declaration names text hn
  unfold kindOf
  split
  · exact .imports _ _
  · split
    · rename_i hd
      exact hdecl _ (by simpa using hd)
    · split
      · rename_i ha
        split
        · exact .assignment _
        · exact hdecl _ (by simpa using ha)
      · exact .statement _

/-- and together with the print of the names that the fragment sets they do, too. -/
theorem submission_shown (l : Log) (n : Nat) {shape : Shape} (text shown : String)
    (hi : shape.isImport = false) (hn : (echoed shape).isEmpty = false) :
    Submission n ((⟨n, kindOf l shape, text⟩ : Entry).withCompanion ++ [⟨n, .print, shown⟩]) := by
  have hdecl : ∀ names : List String, names ≠ [] → Submission n
      ((⟨n, .declaration names, text⟩ : Entry).withCompanion ++ [⟨n, .print, shown⟩]) := by
    intro names hne
    have he : names.isEmpty = false := by simpa using hne
    simpa [Entry.withCompanion, Entry.companion?, Entry.declared, he] using
      Submission.shownDeclaration names text shown hne
  unfold kindOf
  rw [hi, if_neg Bool.false_ne_true]
  split
  · rename_i hd
    exact hdecl _ (by simpa using hd)
  · rename_i hd
    split
    · rename_i ha
      split
      · exact .shownAssignment _ _
      · exact hdecl _ (by simpa using ha)
    · rename_i ha
      simp only [Bool.not_eq_true', Bool.not_eq_false] at hd ha
      rw [echoed, List.isEmpty_iff.mp hd, List.isEmpty_iff.mp ha] at hn
      cases hn

theorem append_entry (h : s.Numbered) {e : Entry} (he : e.sequence = s.sequence + 1) :
    ({ s with sequence := s.sequence + 1 } : Session).append e = s.extended e.withCompanion := by
  have happ := log_append (g := []) h (by simp) he
  rw [List.append_nil, List.nil_append] at happ
  change ({ s with log := s.log.append e, sequence := s.sequence + 1 } : Session) = _
  rw [show s.log.append e = _ from happ]
  rfl

theorem append_shown (h : s.Numbered) {g : List Entry} (hg : Submission (s.sequence + 1) g)
    (shown : String) : (s.extended g).append ⟨s.sequence + 1, .print, shown⟩ =
      s.extended (g ++ [⟨s.sequence + 1, .print, shown⟩]) := by
  have happ := log_append (e := ⟨s.sequence + 1, .print, shown⟩) h (fun _ he => hg.sequence_eq he)
    rfl
  rw [withCompanion_print] at happ
  change ({ s.extended g with log := (s.extended g).log.append _ } : Session) = _
  rw [show (s.extended g).log.append ⟨s.sequence + 1, .print, shown⟩ = _ from happ]
  rfl

/-- A submission that waits for its build is kept or forgotten. -/
theorem keepIfBuilt_cases (h : s.Numbered) (persisted : Bool) {g : List Entry}
    (hg : Submission (s.sequence + 1) g) :
    s.Undisturbed ((s.extended g).keepIfBuilt c (s.sequence + 1) persisted).session ∨
      s.Commits c .buildAndRun persisted g
        ((s.extended g).keepIfBuilt c (s.sequence + 1) persisted) := by
  obtain ⟨files, hf, hb⟩ := build_undisturbed (s.extended g) c
  unfold keepIfBuilt
  dsimp only
  cases hv : ((s.extended g).build c).value with
  | ok output =>
    right
    obtain ⟨hclean, hbuild⟩ := build_eq_ok (s.extended g) c hv
    dsimp only
    cases persisted with
    | true =>
      refine ⟨hg, ⟨output, rfl⟩, ⟨files, hf, ?_⟩, .inr ⟨output, hbuild, hclean⟩⟩
      change ((s.extended g).build c).session.persist = _
      rw [hb]
      rfl
    | false => exact ⟨hg, ⟨output, hv⟩, ⟨files, hf, hb⟩, .inr ⟨output, hbuild, hclean⟩⟩
  | error e =>
    left
    refine ⟨files, hf, ?_⟩
    change ((s.extended g).build c).session.rollback (s.sequence + 1) = _
    rw [hb]
    exact rollback_entered h rfl fun _ he => hg.sequence_eq he

theorem importing_withCompanion (e : Entry) : importing e.withCompanion = e.isImport := by
  unfold importing Entry.withCompanion Entry.companion?
  split
  · simp
  · simp [Entry.isImport]

theorem importing_entered (l : Log) (n : Nat) (shape : Shape) (text : String) :
    importing (⟨n, kindOf l shape, text⟩ : Entry).withCompanion = shape.isImport := by
  rw [importing_withCompanion]
  unfold kindOf
  split
  · rename_i hi
    exact hi.symm
  · rename_i hi
    rw [Bool.not_eq_true] at hi
    rw [hi]
    repeat' split
    all_goals rfl

/-- A fragment of some shape leaves the log as it is, or enters the entry of its kind with its
companion, and perhaps a print. -/
theorem enter_cases (h : s.Numbered) (mode : Mode) (persisted : Bool) (text : String)
    (shape : Shape) :
    s.Undisturbed (s.enter c mode persisted text shape).session ∨
      ∃ shown, (∀ e ∈ shown, e.isPrint = true) ∧ s.Commits c mode persisted
        ((⟨s.sequence + 1, kindOf s.log shape, text⟩ : Entry).withCompanion ++ shown)
        (s.enter c mode persisted text shape) := by
  have hg := submission_entered s.log (s.sequence + 1) shape text
  have happ := append_entry h (e := ⟨s.sequence + 1, kindOf s.log shape, text⟩) rfl
  have himp := importing_entered s.log (s.sequence + 1) shape text
  unfold enter
  dsimp only
  rw [happ]
  split
  · rename_i hi
    refine .inr ⟨[], nofun, ?_⟩
    rw [List.append_nil]
    refine ⟨hg, ⟨"", rfl⟩, ⟨s.files, .refl _ _, ?_⟩, .inl ⟨.inl (himp.trans hi), rfl⟩⟩
    rw [himp, hi, Bool.or_true, Bool.and_true]
    rfl
  · rename_i hi
    rw [Bool.not_eq_true] at hi
    split
    · rename_i hm
      subst hm
      refine .inr ⟨[], nofun, ?_⟩
      rw [List.append_nil]
      refine ⟨hg, ⟨"", rfl⟩, ⟨s.files, .refl _ _, ?_⟩, .inl ⟨.inr rfl, rfl⟩⟩
      rw [himp, hi]
      cases persisted <;> rfl
    · rename_i hm
      have hb : mode = .buildAndRun := by
        cases mode with
        | buildAndRun => rfl
        | accumulate => exact absurd rfl hm
      subst hb
      split
      · refine (keepIfBuilt_cases h persisted hg).imp_right fun hc => ⟨[], nofun, ?_⟩
        rwa [List.append_nil]
      · rename_i hn
        rw [append_shown h hg]
        have hshown := submission_shown s.log (s.sequence + 1) text (Echo.values (echoed shape))
          hi (by simpa using hn)
        refine (keepIfBuilt_cases h persisted hshown).imp_right fun hc => ⟨_, ?_, hc⟩
        intro e he
        rw [List.mem_singleton.mp he]
        rfl

/-- The text goes into the log `l` as a fragment of some shape: it is neither a declared name nor a
bare value, which are only printed. -/
structure Admits (l : Log) (text : String) (shape : Shape) : Prop where
  nonempty : text.isEmpty = false
  undeclared : l.isDeclared text = false
  shaped : Shape.ofSource text = .ok shape
  kept : shape.use? ≠ some .value

/-- An admitted fragment is entered. -/
theorem submitWith_of_admits {fragment : String} {shape : Shape}
    (h : Admits s.log (Text.trim fragment) shape) (mode : Mode) (persisted : Bool) :
    s.submitWith c mode persisted fragment =
      s.enter c mode persisted (Text.trim fragment) shape := by
  simp only [submitWith, h.nonempty, h.undeclared, h.shaped, h.kept, Bool.false_eq_true, if_false]

/-- A submission leaves the log as it is, or enters a fragment that the log admits. -/
theorem submitWith_entered (h : s.Numbered) (mode : Mode) (persisted : Bool) (fragment : String) :
    s.Undisturbed (s.submitWith c mode persisted fragment).session ∨
      ∃ text shape shown, text = Text.trim fragment ∧ Admits s.log text shape ∧
        (∀ e ∈ shown, e.isPrint = true) ∧ s.Commits c mode persisted
          ((⟨s.sequence + 1, kindOf s.log shape, text⟩ : Entry).withCompanion ++ shown)
          (s.submitWith c mode persisted fragment) := by
  unfold submitWith
  dsimp only
  split
  · exact .inl (.refl s)
  · rename_i hempty
    split
    · exact .inl (printValue_undisturbed s c h mode _)
    · rename_i hdeclared
      split
      · exact .inl (.refl s)
      · rename_i shape hshape
        split
        · exact .inl (printValue_undisturbed s c h mode _)
        · rename_i hkept
          have hadmits : Admits s.log (Text.trim fragment) shape :=
            ⟨by simpa using hempty, by simpa using hdeclared, hshape, hkept⟩
          refine (enter_cases h mode persisted _ _).imp_right fun ⟨shown, hshown, hc⟩ => ?_
          exact ⟨_, shape, shown, rfl, hadmits, hshown, hc⟩

/-- A submission leaves the log as it is or enters one submission. -/
theorem submitWith_cases (h : s.Numbered) (mode : Mode) (persisted : Bool) (fragment : String) :
    s.Undisturbed (s.submitWith c mode persisted fragment).session ∨
      ∃ g, s.Commits c mode persisted g (s.submitWith c mode persisted fragment) :=
  (submitWith_entered h mode persisted fragment).imp_right fun ⟨_, _, _, _, _, _, hc⟩ =>
    ⟨_, hc⟩

theorem submitWith_numbered (h : s.Numbered) (mode : Mode) (persisted : Bool)
    (fragment : String) : (s.submitWith c mode persisted fragment).session.Numbered := by
  rcases submitWith_cases (c := c) h mode persisted fragment with hu | ⟨g, hc⟩
  · exact hu.numbered h
  · exact hc.numbered h

theorem submit_cases (h : s.Numbered) (mode : Mode) (fragment : String) :
    s.Undisturbed (s.submit c mode fragment).session ∨
      ∃ g, s.Commits c mode true g (s.submit c mode fragment) :=
  submitWith_cases h mode true fragment

/-- Evaluating a fragment once leaves the log as it is. -/
theorem evaluateOnce_undisturbed (h : s.Numbered) (fragment : String) :
    s.Undisturbed (s.evaluateOnce c fragment).session := by
  unfold evaluateOnce
  dsimp only
  rcases submitWith_cases (c := c) h .buildAndRun false fragment with hu | ⟨g, hc⟩
  · obtain ⟨files, hf, hs⟩ := hu
    refine ⟨files, hf, ?_⟩
    rw [hs]
    exact rollback_entered (g := []) h (by simp) (by simp)
  · obtain ⟨files, hf, hs⟩ := hc.session
    refine ⟨files, hf, ?_⟩
    rw [hs]
    exact rollback_entered h rfl fun _ he => hc.submission.sequence_eq he

/-- Undoing takes the last submission off, if there is one, and saves the transcript. -/
theorem undo_cases (h : s.Numbered) :
    s.log.entries = [] ∧ s.undo.session = s ∨
      ∃ n es g, s.sequence = n + 1 ∧ s.log.entries = es ++ g ∧ Submissions n es ∧
        Submission (n + 1) g ∧
        s.undo.session = ({ s with log := ⟨es⟩, sequence := n }).persist := by
  unfold undo
  split
  · rename_i hl
    exact .inl ⟨(h.eq_nil_of_lastSequence hl).2, rfl⟩
  · rename_i m hl
    right
    obtain ⟨hm, n, hn⟩ := Submissions.eq_succ_of_lastSequence h hl
    have hlast : Submissions (n + 1) s.log.entries := by
      have hn' : Submissions s.sequence s.log.entries := h
      rwa [hn] at hn'
    obtain ⟨es, g, hes, hbefore, hg, hr⟩ := hlast.rollback_last
    refine ⟨n, es, g, hn, hes, hbefore, hg, ?_⟩
    have hroll : s.rollback m = { s with log := ⟨es⟩, sequence := n } := by
      have hlog : s.log.rollback m = ⟨es⟩ := by
        rw [hm, hn]
        exact hr
      rw [rollback, hlog, hbefore.lastSequence]
    change (s.rollback m).persist = _
    rw [hroll]

/-- Entering fragments unbuilt keeps the log made of submissions. -/
theorem accumulate_numbered (h : s.Numbered) (fragments : List String) :
    (s.accumulate c fragments).2.Numbered := by
  induction fragments generalizing s with
  | nil => exact h
  | cons f fs ih =>
    have hrest := ih (submitWith_numbered (c := c) h .accumulate false f)
    unfold accumulate
    dsimp only
    split <;> exact hrest

/-- Replaying enters the fragments of the transcript, and builds the log if there is one.  What the
build fails with is among the replies. -/
theorem replay_eq_ok {t : Turn (List Reply)} (hr : s.replay c = .ok t) :
    ∃ fragments, (∀ path ∈ s.transcript, Transcript.load s.files path = .ok fragments) ∧
      (t.session = (s.accumulate c fragments).2 ∧ t.build = none ∨
        t.session = ((s.accumulate c fragments).2.build c).session ∧
          t.build = ((s.accumulate c fragments).2.build c).build ∧
          ∀ e, ((s.accumulate c fragments).2.build c).value = .error e →
            .failure e ∈ t.value) := by
  unfold replay at hr
  simp only [bind, Except.bind, pure, Except.pure] at hr
  cases ht : s.transcript with
  | none =>
    rw [ht] at hr
    cases hr
    exact ⟨[], nofun, .inl ⟨rfl, rfl⟩⟩
  | some path =>
    rw [ht] at hr
    cases hl : Transcript.load s.files path with
    | error e =>
      simp only [hl] at hr
      cases hr
    | ok fragments =>
      simp only [hl] at hr
      refine ⟨fragments, fun path' hp => Option.mem_some.mp hp ▸ hl, ?_⟩
      by_cases hnil : fragments.isEmpty
      · rw [if_pos hnil] at hr
        cases hr
        rw [List.isEmpty_iff.mp hnil]
        exact .inl ⟨rfl, rfl⟩
      · rw [if_neg hnil] at hr
        by_cases hlog : (s.accumulate c fragments).2.log.isEmpty
        · rw [if_pos hlog] at hr
          cases hr
          exact .inl ⟨rfl, rfl⟩
        · rw [if_neg hlog] at hr
          cases hr
          refine .inr ⟨rfl, rfl, fun e he => ?_⟩
          simp [he]

/-- Replaying enters the fragments of the transcript. -/
theorem replay_cases {t : Turn (List Reply)} (hr : s.replay c = .ok t) :
    ∃ fragments, (∀ path ∈ s.transcript, Transcript.load s.files path = .ok fragments) ∧
      (s.accumulate c fragments).2.Undisturbed t.session := by
  obtain ⟨fragments, hload, ⟨hs, -⟩ | ⟨hs, -⟩⟩ := replay_eq_ok hr
  · exact ⟨fragments, hload, hs ▸ .refl _⟩
  · exact ⟨fragments, hload, hs ▸ build_undisturbed _ c⟩

theorem replay_numbered (h : s.Numbered) {t : Turn (List Reply)} (hr : s.replay c = .ok t) :
    t.session.Numbered := by
  obtain ⟨fragments, -, hu⟩ := replay_cases hr
  exact hu.numbered (accumulate_numbered h fragments)

/-- A line of input leaves the log as it is, enters a fragment, or takes the last one back. -/
theorem dispatch_cases (h : s.Numbered) (line : String) :
    s.Undisturbed (s.dispatch c line).session ∨
      (∃ text g, Command.ofLine line = .fragment text ∧
        s.dispatch c line = (s.submit c .buildAndRun text).map .ofAnswer ∧
        s.Commits c .buildAndRun true g (s.submit c .buildAndRun text)) ∨
      (Command.ofLine line = .undo ∧ s.dispatch c line = s.undo.map .output ∧
        s.log.entries ≠ []) := by
  -- only undoing, evaluating, printing and fragments go beyond a listing
  unfold dispatch
  split
  case h_5 ho =>
    rcases undo_cases h with ⟨hnil, hs⟩ | ⟨n, es, g, -, hes, -, hg, -⟩
    · left
      rw [Turn.map_session, hs]
      exact .refl s
    · refine .inr (.inr ⟨ho, rfl, ?_⟩)
      rw [hes]
      exact List.append_ne_nil_of_right_ne_nil _ hg.ne_nil
  case h_7 fragment _ =>
    left
    rw [Turn.map_session]
    exact evaluateOnce_undisturbed h fragment
  case h_8 expression _ =>
    left
    rw [Turn.map_session]
    exact printOnce_undisturbed s c h expression
  case h_10 text ho =>
    have hsubmit := submit_cases (c := c) h .buildAndRun text
    rw [Turn.map_session]
    rcases hsubmit with hu | ⟨g, hc⟩
    · exact .inl hu
    · exact .inr (.inl ⟨text, g, ho, rfl, hc⟩)
  all_goals exact .inl (.refl s)

end Session

end GoRepl
