import GoRepl.Console.Loop
import GoRepl.Proofs.Session.KnownGood
import GoRepl.Proofs.Session.Replay

/-! # What a console leaves is restored

A console of a project starts with replaying its transcript, whatever that is, and goes on with
lines of input.  Whenever a line changes the log, a new session that replays the transcript takes
all of its fragments, and ends with the same listing, the same declared names, and the same program
but for prints.

* `Console.Reads`: the consoles of a session; `Console.Reads.feedAll`: those of the loop.
* `Session.Recording.feed`: what a line does.
* `Session.Recording.replays`: replaying what a session has recorded.
* `Console.Reads.restored`: replaying what a console has recorded.
-/

namespace GoRepl

open Framing

/-! ## Runs of a console -/

/-- The consoles that a start with the session `s`, and lines of input after it, lead to.  The
toolchain may answer differently each time. -/
inductive Console.Reads (s : Session) : Console → Prop
  | start (c : Toolchain) : Reads s (Console.start c s).1
  | ask {k : Console} (before : Reads s k) : Reads s k.ask
  | feed {k : Console} (before : Reads s k) (c : Toolchain) {line : String} (plain : IsLine line) :
      Reads s (k.feed c line)

/-- What the console's loop leads to is among them. -/
theorem Console.Reads.feedAll {s : Session} {k : Console} (h : Reads s k) (c : Toolchain)
    {lines : List (Except InputFault String)} (hlines : ∀ line, .ok line ∈ lines → IsLine line) :
    Reads s (Console.feedAll c k lines).1 := by
  induction lines generalizing k with
  | nil => exact h.ask
  | cons line lines ih =>
    cases line with
    | error fault => exact h.ask
    | ok line =>
      have hfeed := h.ask.feed c (hlines line (.head _))
      unfold Console.feedAll
      dsimp only
      split
      · exact hfeed
      · exact ih hfeed fun line hl => hlines line (.tail _ hl)

@[simp] theorem Console.enter_session (c : Toolchain) (k : Console) (input : String) :
    (k.enter c input).session = (k.session.dispatch c input).session := by
  dsimp only [Console.enter]

@[simp] theorem Console.enter_pending (c : Toolchain) (k : Console) (input : String) :
    (k.enter c input).pending = "" := by
  dsimp only [Console.enter]

namespace Session.Recording

variable {s : Session} {c : Toolchain} {path : String}

theorem start (h : Recording path s)
    (hplain : ∀ text, s.files.readText [] path = .ok text → '\r' ∉ text.toList) :
    Recording path (Console.start c s).1.session ∧ Waiting (Console.start c s).1.pending := by
  unfold Console.start
  split
  · rename_i t hr
    exact ⟨h.replay hplain hr, .inl rfl⟩
  · exact ⟨h, .inl rfl⟩

/-- A line keeps the session recording and what is not complete waiting; if it changes the log, the
transcript holds it. -/
theorem feed {k : Console} (h : Recording path k.session) (hp : Waiting k.pending) {line : String}
    (hl : IsLine line) :
    (Recording path (k.feed c line).session ∧ Waiting (k.feed c line).pending) ∧
      ((k.feed c line).session.log ≠ k.session.log → Holds path (k.feed c line).session) := by
  have hcollected := hp.extend hl
  unfold Console.feed
  dsimp only
  split
  · exact ⟨⟨h, hp⟩, fun hne => absurd rfl hne⟩
  · split
    · rename_i hmore
      exact ⟨⟨h, .inr ⟨hcollected, hmore⟩⟩, fun hne => absurd rfl hne⟩
    · obtain ⟨hrec, hholds⟩ := h.dispatch (c := c) hcollected
      rw [Console.enter_session, Console.enter_pending]
      exact ⟨⟨hrec, .inl rfl⟩, hholds⟩

/-- A new session that replays what the session has recorded takes every fragment of it, and ends
with the same contents and no prints. -/
theorem replays (h : Recording path s) (hs : Holds path s) {fresh : Session} (hnew : fresh.IsNew)
    (hpath : fresh.transcript = some path)
    (hfile : fresh.files.readText [] path = s.files.readText [] path) :
    ∃ t, Transcript.load fresh.files path = .ok s.fragments ∧
      (fresh.accumulate c s.fragments).1 = [] ∧ fresh.replay c = .ok t ∧
      s.log.SameContents t.session.log ∧ ∀ e ∈ t.session.log.entries, e.isPrint = false := by
  have hload : Transcript.load fresh.files path = .ok s.fragments := by
    rw [← h.load hs, Transcript.load, Transcript.load, hfile]
  obtain ⟨s', hr, hsame⟩ := h.entered.replayed (c := c) hnew
  obtain ⟨t, ht, hlog⟩ := replay_of_load (c := c) hpath hload
  have hacc : fresh.accumulate c s.fragments = ([], s') := hr.accumulated
  rw [hacc] at hlog
  refine ⟨t, hload, congrArg Prod.fst hacc, ht, ?_, ?_⟩
  · rw [hlog]
    exact hsame
  · rw [hlog]
    exact hr.silent

end Session.Recording

theorem Console.Reads.recording {s : Session} {k : Console} {path : String} (h : Reads s k)
    (hs : s.Recording path)
    (hplain : ∀ text, s.files.readText [] path = .ok text → '\r' ∉ text.toList) :
    k.session.Recording path ∧ Waiting k.pending := by
  induction h with
  | start c => exact hs.start hplain
  | ask before ih => exact ih
  | feed before c plain ih => exact (ih.1.feed ih.2 plain).1

/-! ## A declaration in a new session -/

theorem Console.feed_complete {k : Console} {c : Toolchain} {line : String} (hp : k.pending = "")
    (hb : Text.isBlankText line = false) (hm : needsMore line = false) :
    k.feed c line = k.enter c line := by
  have hext : extend "" line = line := rfl
  rw [feed, hp, hb, Bool.and_false, if_neg Bool.false_ne_true, hext, if_neg (by simp [hm])]

namespace Session

/-- The log of the declaration `x := 1`, entered by a line of input. -/
def defined : List Entry :=
  [⟨1, .declaration ["x"], "x := 1"⟩, ⟨1, .companion, Entry.useText ["x"]⟩,
    ⟨1, .print, Echo.values ["x"]⟩]

theorem dispatch_define_log :
    ((inRoot "demo").dispatch .silent "x := 1").session.log = ⟨defined⟩ := by
  have ho : Command.ofLine "x := 1" = .fragment "x := 1" := by decide +kernel
  have ht : Text.trim "x := 1" = "x := 1" := by decide +kernel
  have hshape : Shape.ofSource "x := 1" = .ok (.declares ["x"]) := by decide +kernel
  have ha : Admits (inRoot "demo").log (Text.trim "x := 1") (.declares ["x"]) := by
    rw [ht]
    exact ⟨rfl, rfl, hshape, nofun⟩
  have hb := Workshop.build_silent inRoot_writable (Program.ofLog ⟨defined⟩).text
  simp only [dispatch, ho, Turn.map_session, submit]
  rw [submitWith_of_admits ha, ht]
  exact keepIfBuilt_log_of_success (s := (inRoot "demo").extended defined) hb

theorem readText_inRoot :
    (inRoot "demo").files.readText [] "/demo.changes" = .error .notFound := by
  simp only [Tree.readText, Tree.read, Tree.node, Tree.resolve, String.contains_char_eq]
  rfl

theorem write_inRoot : ((inRoot "demo").files.write [] "/demo.changes" .empty).isOk = true := by
  simp only [Tree.write, Tree.resolve, String.contains_char_eq]
  decide +kernel

theorem start_inRoot (c : Toolchain) :
    (Console.start c (inRoot "demo")).1 = { session := inRoot "demo" } := by
  have hpath : (inRoot "demo").transcript = some "/demo.changes" := by decide +kernel
  have hload : Transcript.load (inRoot "demo").files "/demo.changes" = .ok [] := by
    rw [Transcript.load, readText_inRoot]
  have hreplay : (inRoot "demo").replay c = .ok ((inRoot "demo").unchanged []) := by
    simp only [replay, hpath, hload, bind, Except.bind]
    rfl
  rw [Console.start, hreplay]
  rfl

end Session

/-! ## Replaying a transcript -/

/-- Whenever a line changes the log, a new session that replays the transcript rejects none of its
fragments, and ends with the same listing and the same declared names.  Its program is that of the
log without prints. -/
theorem Console.Reads.restored {s fresh : Session} {k : Console} {path line : String}
    (h : Reads s k) (hnew : s.IsNew) (hpath : s.transcript = some path)
    (hwritable : (s.files.write [] path .empty).isOk = true)
    (hplain : ∀ text, s.files.readText [] path = .ok text → '\r' ∉ text.toList) (c : Toolchain)
    (hline : IsLine line) (hchanged : (k.feed c line).session.log ≠ k.session.log)
    (hnew' : fresh.IsNew) (hpath' : fresh.transcript = some path)
    (hfile : fresh.files.readText [] path = (k.feed c line).session.files.readText [] path)
    (c' : Toolchain) :
    ∃ fragments t, Transcript.load fresh.files path = .ok fragments ∧
      (fresh.accumulate c' fragments).1 = [] ∧ fresh.replay c' = .ok t ∧
      t.session.sourceListing = (k.feed c line).session.sourceListing ∧
      t.session.log.declaredNames = (k.feed c line).session.log.declaredNames ∧
      (Program.ofLog t.session.log).text =
        (Program.ofLog (k.feed c line).session.log.withoutPrints).text := by
  have hs : s.Recording path := ⟨hnew.entered, hpath, hwritable⟩
  obtain ⟨hk, hpending⟩ := h.recording hs hplain
  obtain ⟨⟨hrec, -⟩, hholds⟩ := hk.feed (c := c) hpending hline
  obtain ⟨t, hload, htaken, hreplay, hsame, hsilent⟩ :=
    hrec.replays (c := c') (hholds hchanged) hnew' hpath' hfile
  refine ⟨_, t, hload, htaken, hreplay, ?_, Log.declaredNames_eq hsame.body, ?_⟩
  · rw [Session.sourceListing, Session.sourceListing, Session.fragments, Session.fragments,
      hsame.listing_eq]
  · exact hsame.withoutPrints.program_eq (Log.isPrint_withoutPrints _) hsilent

theorem Console.restored_define :
    let k := (Console.start .silent (Session.inRoot "demo")).1.feed .silent "x := 1"
    let fresh : Session := { Session.inRoot "demo" with files := k.session.files }
    k.session.log.entries = Session.defined ∧ ∃ t, fresh.replay .silent = .ok t ∧
      t.session.sourceListing = k.session.sourceListing ∧ t.session.log.declaredNames = ["x"] := by
  intro k fresh
  have hstart : Reads (Session.inRoot "demo") _ := .start .silent
  have hlog : k.session.log = ⟨Session.defined⟩ := by
    change ((Console.start .silent (Session.inRoot "demo")).1.feed .silent "x := 1").session.log = _
    rw [Session.start_inRoot, feed_complete rfl (by decide) (by decide +kernel), enter_session]
    exact Session.dispatch_define_log
  have hpath : (Session.inRoot "demo").transcript = some "/demo.changes" := by decide +kernel
  have hchanged :
      k.session.log ≠ (Console.start .silent (Session.inRoot "demo")).1.session.log := by
    rw [hlog, Session.start_inRoot]
    exact nofun
  have hplain : ∀ text, (Session.inRoot "demo").files.readText [] "/demo.changes" = .ok text →
      '\r' ∉ text.toList := by
    intro text ht
    rw [Session.readText_inRoot] at ht
    cases ht
  have hline : IsLine "x := 1" := ⟨by decide +kernel, by decide +kernel⟩
  have hnew : fresh.IsNew := ⟨rfl, rfl⟩
  obtain ⟨fragments, t, -, -, ht, hlisting, hnames, -⟩ :=
    hstart.restored (Session.inRoot_isNew "demo") hpath Session.write_inRoot hplain .silent hline
      hchanged hnew hpath rfl .silent
  refine ⟨congrArg Log.entries hlog, t, ht, hlisting, hnames.trans ?_⟩
  change k.session.log.declaredNames = _
  rw [hlog]
  decide +kernel

end GoRepl
