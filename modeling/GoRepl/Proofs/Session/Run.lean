import GoRepl.Proofs.Session.Step

/-! # Runs of a session

A run starts with a new session and does one operation after another.  The toolchain may answer
differently each time.

* `Operation`, `Event`, `Run`: operations, and what happened in a run.
* `Reachable`: the sessions that runs lead to.
* `Reachable.numbered`: their logs are made of submissions.
* `Reachable.sequence_lt`: how many fragments there may be for numbers of 32 bits.
* `Reachable.log_submissions`: the shape of their logs and listings.
-/

namespace GoRepl.Session

/-- Something asked of a session. -/
inductive Operation where
  | submit (mode : Mode) (fragment : String)
  | dispatch (line : String)
  | evaluateOnce (fragment : String)
  | printOnce (expression : String)
  | undo
  | replay
  deriving Repr, DecidableEq, Inhabited

/-- The session after an operation, and the build it took.  A transcript that cannot be read leaves
the session as it is. -/
def Operation.turn (s : Session) (c : Toolchain) : Operation → Turn Unit
  | submit mode fragment => (s.submit c mode fragment).map fun _ => ()
  | dispatch line => (s.dispatch c line).map fun _ => ()
  | evaluateOnce fragment => (s.evaluateOnce c fragment).map fun _ => ()
  | printOnce expression => (s.printOnce c expression).map fun _ => ()
  | undo => s.undo.map fun _ => ()
  | replay =>
    match s.replay c with
    | .ok t => t.map fun _ => ()
    | .error _ => s.unchanged ()

/-- An operation of a run: the session it was asked of, and the toolchain that answered. -/
structure Event where
  before : Session
  toolchain : Toolchain
  operation : Operation

namespace Event

def turn (e : Event) : Turn Unit := e.operation.turn e.before e.toolchain

/-- The session after the operation. -/
def after (e : Event) : Session := e.turn.session

/-- The build that the operation took. -/
def build? (e : Event) : Option Build := e.turn.build

end Event

/-- The events lead from the session `start` to another one. -/
inductive Run (start : Session) : List Event → Session → Prop
  | nil : Run start [] start
  | snoc {es : List Event} {s : Session} (run : Run start es s) (c : Toolchain) (o : Operation) :
      Run start (es ++ [⟨s, c, o⟩]) (o.turn s c).session

/-- Nothing was entered into the session yet. -/
structure IsNew (s : Session) : Prop where
  log : s.log = {}
  sequence : s.sequence = 0

/-- A new session of a project in the root directory. -/
def inRoot (project : String) : Session where
  files := {}
  workshop := { staging := .inDir "/" project, keepSource := false }
  transcript := some (transcriptPath "/" project)

/-- A run leads to the session. -/
def Reachable (s : Session) : Prop := ∃ start es, IsNew start ∧ Run start es s

theorem inRoot_isNew (project : String) : (inRoot project).IsNew := ⟨rfl, rfl⟩

theorem IsNew.numbered {s : Session} (h : s.IsNew) : s.Numbered := by
  rw [Numbered, h.log, h.sequence]
  exact .none

theorem submit_numbered {s : Session} (h : s.Numbered) (c : Toolchain) (mode : Mode)
    (fragment : String) : (s.submit c mode fragment).session.Numbered :=
  submitWith_numbered h mode true fragment

theorem undo_numbered {s : Session} (h : s.Numbered) : s.undo.session.Numbered := by
  rcases undo_cases h with ⟨-, hs⟩ | ⟨n, es, g, -, -, hes, -, hs⟩
  · rwa [hs]
  · rw [Numbered, hs, persist_log, persist_sequence]
    exact hes

/-- Every operation keeps the log made of submissions. -/
theorem Operation.turn_numbered {s : Session} (h : s.Numbered) (c : Toolchain) (o : Operation) :
    (o.turn s c).session.Numbered := by
  cases o with
  | submit mode fragment =>
    rw [turn, Turn.map_session]
    exact submit_numbered h c mode fragment
  | dispatch line =>
    rw [turn, Turn.map_session]
    rcases dispatch_cases (c := c) h line with hu | ⟨text, g, -, ht, hc⟩ | ⟨-, ht, -⟩
    · exact hu.numbered h
    · rw [ht, Turn.map_session]
      exact hc.numbered h
    · rw [ht, Turn.map_session]
      exact undo_numbered h
  | evaluateOnce fragment =>
    rw [turn, Turn.map_session]
    exact (evaluateOnce_undisturbed h fragment).numbered h
  | printOnce expression =>
    rw [turn, Turn.map_session]
    exact (printOnce_undisturbed s c h expression).numbered h
  | undo =>
    rw [turn, Turn.map_session]
    exact undo_numbered h
  | replay =>
    rw [turn]
    split
    · rename_i t ht
      rw [Turn.map_session]
      exact replay_numbered h ht
    · exact h

theorem Run.numbered {start s : Session} {es : List Event} (run : Run start es s)
    (h : start.Numbered) : s.Numbered := by
  induction run with
  | nil => exact h
  | snoc _ c o ih => exact o.turn_numbered ih c

theorem Reachable.numbered {s : Session} (h : s.Reachable) : s.Numbered := by
  obtain ⟨start, es, hnew, run⟩ := h
  exact run.numbered hnew.numbered

/-- One operation leads from a new session to a reachable one. -/
theorem IsNew.reachable_turn {s : Session} (h : s.IsNew) (c : Toolchain) (o : Operation) :
    (o.turn s c).session.Reachable := ⟨s, _, h, .snoc .nil c o⟩

/-! ## The shape of the log -/

/-- The fragments that are listed are those the user sees, in another order. -/
theorem fragments_perm (s : Session) : s.fragments.Perm (s.log.visible.map (·.text)) := by
  have hsplit : s.log.listing.Perm s.log.visible := List.filter_append_perm _ s.log.visible
  exact hsplit.map _

theorem Numbered.length_fragments {s : Session} (h : s.Numbered) :
    s.fragments.length = s.sequence := by
  rw [s.fragments_perm.length_eq, List.length_map]
  exact h.length_visible

/-- As long as fewer than `2 ^ 32 - 1` fragments survive, 32 bits hold the numbers of a session, the
next one included. -/
theorem Reachable.sequence_lt {s : Session} (h : s.Reachable)
    (hfew : s.log.visible.length + 1 < UInt32.size) :
    s.sequence + 1 < UInt32.size ∧ ∀ e ∈ s.log.entries, e.sequence < UInt32.size := by
  have hcount : s.log.visible.length = s.sequence := h.numbered.length_visible
  rw [hcount] at hfew
  refine ⟨hfew, fun e he => ?_⟩
  exact (Nat.lt_succ_of_le (h.numbered.sequence_le he)).trans hfew

/-- The log of a reachable session consists of the submissions 1 to `s.sequence`.  Of each, the
first entry is shown and no other, so that the listing has as many numbered fragments. -/
theorem Reachable.log_submissions {s : Session} (h : s.Reachable) :
    ∃ gs : List (List Entry), s.log.entries = gs.flatten ∧ gs.length = s.sequence ∧
      (∀ k (hk : k < gs.length), Submission (k + 1) gs[k] ∧ (∀ e ∈ gs[k], e.sequence = k + 1) ∧
        ∃ e rest, gs[k] = e :: rest ∧ e.visible = true ∧ ∀ e' ∈ rest, e'.visible = false) ∧
      ∃ texts : List String, texts.length = s.sequence ∧
        texts.Perm (s.log.visible.map (·.text)) ∧
        s.sourceListing = Text.joinLines (texts.zipIdx.map fun (text, i) =>
          " " ++ toString (i + 1) ++ ":\t" ++ text) := by
  have hn := h.numbered
  obtain ⟨gs, hlen, hes, hgs⟩ := hn.groups
  refine ⟨gs, hes, hlen, ?_, s.fragments, hn.length_fragments, s.fragments_perm, rfl⟩
  intro k hk
  have hg := hgs k hk
  exact ⟨hg, fun e he => hg.sequence_eq he, hg.visible_eq⟩

theorem log_submissions_declaration :
    let s := ((inRoot "demo").submit (.unavailable .notFound) .accumulate "x := 1").session
    s.Reachable ∧
      s.log.entries = [⟨1, .declaration ["x"], "x := 1"⟩, ⟨1, .companion, "goloopUse(x)"⟩] ∧
      ∃ gs : List (List Entry), s.log.entries = gs.flatten ∧ gs.length = s.sequence := by
  have hr := (inRoot_isNew "demo").reachable_turn (.unavailable .notFound)
    (.submit .accumulate "x := 1")
  obtain ⟨gs, hes, hlen, -⟩ := Reachable.log_submissions hr
  exact ⟨hr, by decide +kernel, gs, hes, hlen⟩

end GoRepl.Session
