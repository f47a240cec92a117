import GoRepl.Proofs.Fragment.Nesting
import GoRepl.Proofs.Session.Run
import GoRepl.Proofs.Session.Transcript

/-! # Sessions that record their fragments

The log of a project's session holds fragments that were collected from lines, trimmed, and admitted
by the log before them.  Whenever a line of input changes the log, the transcript is what the log
lists then.

* `Session.Entered`: logs of such fragments.
* `Session.Recording`: a session with such a log and a transcript that can be written.
* `Session.Holds`: the transcript is what the log lists.
* `Session.Recording.dispatch`, `Session.Recording.replay`: what input and replay do to such a
  session.
-/

namespace GoRepl

/-- A fragment is the input without its blank ends. -/
theorem Command.ofLine_eq_fragment {line text : String} (h : ofLine line = .fragment text) :
    text = Text.trim line := by
  have hcontrol : ∀ d, control? d ≠ some (.fragment text) := by
    intro d hd
    unfold control? at hd
    split at hd <;> cases hd
  unfold ofLine at h
  dsimp only at h
  split at h
  · cases h
  · rename_i r _
    cases hr : r.head?.bind control? with
    | none =>
      rw [hr] at h
      cases h
    | some command =>
      rw [hr] at h
      obtain ⟨d, -, hd⟩ := Option.bind_eq_some_iff.mp hr
      exact absurd (h ▸ hd) (hcontrol d)
  · cases h
  · cases h
  · cases h
    rfl

namespace Session

open Framing

/-- The entries of `n` fragments: each was collected from lines and trimmed, the log before it
admitted it, and nothing but prints was entered with it and its companion. -/
inductive Entered : Nat → List Entry → Prop
  | none : Entered 0 []
  | next {n : Nat} {es shown : List Entry} {text : String} {shape : Shape} (before : Entered n es)
      (collected : Collected text) (trimmed : Text.trim text = text)
      (admitted : Admits ⟨es⟩ text shape) (prints : ∀ e ∈ shown, e.isPrint = true)
      (last : Submission (n + 1)
        ((⟨n + 1, kindOf ⟨es⟩ shape, text⟩ : Entry).withCompanion ++ shown)) :
      Entered (n + 1) (es ++ ((⟨n + 1, kindOf ⟨es⟩ shape, text⟩ : Entry).withCompanion ++ shown))

namespace Entered

variable {n : Nat} {es g : List Entry}

theorem submissions (h : Entered n es) : Submissions n es := by
  induction h with
  | none => exact .none
  | next _ _ _ _ _ last ih => exact .next ih last

/-- Without its last submission the log is one of such fragments, too. -/
theorem of_append (h : Entered (n + 1) (es ++ g)) (hes : Submissions n es)
    (hg : Submission (n + 1) g) : Entered n es := by
  -- however the log is cut, rolling back takes the same entries off
  have hroll := hes.rollback_append fun e he => hg.sequence_eq he
  generalize hall : es ++ g = all at h hroll
  cases h with
  | next before _ _ _ _ last =>
    rw [before.submissions.rollback_append fun e he => last.sequence_eq he] at hroll
    cases hroll
    exact before

/-- What the user sees of the log can be read back from a transcript. -/
theorem recordable (h : Entered n es) :
    ∀ e ∈ es, e.visible = true → Transcript.Recordable e.text := by
  induction h with
  | none => exact nofun
  | next _ collected trimmed admitted prints last ih =>
    intro e he hv
    rcases List.mem_append.mp he with he | he
    · exact ih e he hv
    -- of a submission the user sees the first entry only, and that is the fragment
    obtain ⟨first, rest, hg, -, hrest⟩ := last.visible_eq
    have hfirst : e = first := by
      rw [hg] at he
      rcases List.mem_cons.mp he with rfl | he
      · rfl
      · rw [hrest e he] at hv
        cases hv
    have htext : first.text = _ := congrArg Entry.text (List.cons.inj hg).1.symm
    rw [hfirst, htext]
    exact ⟨⟨collected.framed, Shape.not_needsMore admitted.shaped,
      Text.isBlankText_firstLine trimmed admitted.nonempty⟩, collected.plain⟩

end Entered

/-- The session has a log of collected fragments, and a transcript at `path` that can be written. -/
structure Recording (path : String) (s : Session) : Prop where
  entered : Entered s.sequence s.log.entries
  transcript : s.transcript = some path
  writable : (s.files.write [] path .empty).isOk = true

/-- The transcript at `path` holds the fragments of the log. -/
def Holds (path : String) (s : Session) : Prop :=
  s.files.readText [] path = .ok (Transcript.ofFragments s.fragments)

theorem IsNew.entered {s : Session} (h : s.IsNew) : Entered s.sequence s.log.entries := by
  rw [h.log, h.sequence]
  exact .none

namespace Recording

variable {s : Session} {c : Toolchain} {path : String}

theorem numbered (h : Recording path s) : s.Numbered := h.entered.submissions

/-- The fragments of the session can be read back from a transcript. -/
theorem recordable (h : Recording path s) : ∀ f ∈ s.fragments, Transcript.Recordable f := by
  intro f hf
  obtain ⟨e, he, rfl⟩ := List.mem_map.mp (s.fragments_perm.mem_iff.mp hf)
  obtain ⟨hmem, hv⟩ := List.mem_filter.mp he
  exact h.entered.recordable e hmem hv

theorem load (h : Recording path s) (hs : Holds path s) :
    Transcript.load s.files path = .ok s.fragments := by
  unfold Transcript.load
  rw [hs]
  exact congrArg Except.ok (Transcript.fragments_ofFragments h.recordable)

theorem undisturbed (h : Recording path s) {s' : Session} (hu : s.Undisturbed s') :
    Recording path s' := by
  obtain ⟨files, hf, rfl⟩ := hu
  exact ⟨h.entered, h.transcript, hf.write_isOk h.writable⟩

/-- Saving the transcript succeeds. -/
theorem persist (h : Recording path s) : Recording path s.persist ∧ Holds path s.persist := by
  obtain ⟨files, hw⟩ : ∃ files, Transcript.save s.files path s.fragments = .ok files :=
    Tree.exists_write h.writable _
  have hf : Tree.SameOutside [Location.ofPath [] path] s.files files := .write (.head _) hw
  have hs : s.persist = { s with files } := by simp only [Session.persist, h.transcript, hw]
  rw [hs]
  exact ⟨⟨h.entered, h.transcript, hf.write_isOk h.writable⟩, Tree.readText_of_write hw⟩

/-- A session that enters a collected fragment records it, at once if the fragment was built. -/
theorem commits (h : Recording path s) {mode : Mode} {persisted : Bool} {g : List Entry}
    {t : Turn Answer} (he : Entered (s.sequence + 1) (s.log.entries ++ g))
    (hc : s.Commits c mode persisted g t) : Recording path t.session ∧
      (mode = .buildAndRun → persisted = true → Holds path t.session) := by
  obtain ⟨files, hf, hs⟩ := hc.session
  have hext : Recording path ({ s with files }.extended g) :=
    ⟨he, h.transcript, hf.write_isOk h.writable⟩
  rw [hs, saved]
  split
  · exact ⟨hext.persist.1, fun _ _ => hext.persist.2⟩
  · rename_i hsaved
    refine ⟨hext, fun hm hp => ?_⟩
    subst hm hp
    exact absurd rfl hsaved

theorem submitWith (h : Recording path s) (mode : Mode) (persisted : Bool) {fragment : String}
    (hf : Collected fragment) : Recording path (s.submitWith c mode persisted fragment).session ∧
      (mode = .buildAndRun → persisted = true →
        (s.submitWith c mode persisted fragment).session.log ≠ s.log →
        Holds path (s.submitWith c mode persisted fragment).session) := by
  rcases submitWith_entered (c := c) h.numbered mode persisted fragment with
    hu | ⟨_, shape, shown, rfl, hadmits, hshown, hc⟩
  · exact ⟨h.undisturbed hu, fun _ _ hne => absurd hu.log_eq hne⟩
  · have he := Entered.next h.entered hf.trim (Text.trim_trim fragment) hadmits hshown hc.submission
    obtain ⟨hrec, hholds⟩ := h.commits he hc
    exact ⟨hrec, fun hm hp _ => hholds hm hp⟩

theorem undo (h : Recording path s) : Recording path s.undo.session ∧
    (s.undo.session.log ≠ s.log → Holds path s.undo.session) := by
  rcases undo_cases h.numbered with ⟨-, hs⟩ | ⟨n, es, g, hn, hlog, hes, hg, hs⟩
  · rw [hs]
    exact ⟨h, fun hne => absurd rfl hne⟩
  · have he := h.entered
    rw [hn, hlog] at he
    have hback : Recording path { s with log := ⟨es⟩, sequence := n } :=
      ⟨he.of_append hes hg, h.transcript, h.writable⟩
    rw [hs]
    exact ⟨hback.persist.1, fun _ => hback.persist.2⟩

/-- A line of input keeps the session recording; if it changes the log, the transcript holds it. -/
theorem dispatch (h : Recording path s) {line : String} (hl : Collected line) :
    Recording path (s.dispatch c line).session ∧
      ((s.dispatch c line).session.log ≠ s.log → Holds path (s.dispatch c line).session) := by
  rcases dispatch_cases (c := c) h.numbered line with
    hu | ⟨text, g, ho, ht, -⟩ | ⟨-, ht, -⟩
  · exact ⟨h.undisturbed hu, fun hne => absurd hu.log_eq hne⟩
  · have hf : Collected text := Command.ofLine_eq_fragment ho ▸ hl.trim
    obtain ⟨hrec, hholds⟩ := h.submitWith (c := c) .buildAndRun true hf
    rw [ht, Turn.map_session, submit]
    exact ⟨hrec, hholds rfl rfl⟩
  · rw [ht, Turn.map_session]
    exact h.undo

theorem accumulate (h : Recording path s) {fragments : List String}
    (hf : ∀ f ∈ fragments, Collected f) : Recording path (s.accumulate c fragments).2 := by
  induction fragments generalizing s with
  | nil => exact h
  | cons f fs ih =>
    obtain ⟨hfirst, hrest⟩ := List.forall_mem_cons.mp hf
    have hstep := ih (h.submitWith (c := c) .accumulate false hfirst).1 hrest
    unfold Session.accumulate
    dsimp only
    split <;> exact hstep

theorem replay (h : Recording path s)
    (hplain : ∀ text, s.files.readText [] path = .ok text → '\r' ∉ text.toList)
    {t : Turn (List Reply)} (hr : s.replay c = .ok t) : Recording path t.session := by
  obtain ⟨fragments, hload, hu⟩ := replay_cases hr
  have hcollected : ∀ f ∈ fragments, Collected f := by
    have hl := hload path h.transcript
    unfold Transcript.load at hl
    split at hl
    · rename_i text htext
      cases hl
      exact Transcript.fragments_collected (hplain text htext)
    · cases hl
      exact nofun
    · cases hl
  exact (h.accumulate hcollected).undisturbed hu

end Recording

end Session

end GoRepl
