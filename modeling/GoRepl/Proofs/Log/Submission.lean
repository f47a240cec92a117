import GoRepl.Proofs.Log.Rollback

/-! # Logs made of submissions

The log of a session is a sequence of submissions, numbered from 1 on without gaps.  Each is a
fragment of the user, perhaps with its companion, perhaps with a print.

* `Submission n g`: `g` is what a submission with the number `n` may enter into a log.
* `Submissions n es`: `es` are the entries of the submissions 1 to `n`, one after another.
* `Submissions.rollback_append`, `Submissions.rollback_last`: rolling such a log back takes whole
  submissions off its end.
* `Log.upTo`: the part of a log up to some submission.
-/

namespace GoRepl

/-- The entries of a submission with the number `n`. -/
inductive Submission (n : Nat) : List Entry → Prop
  | imports (paths : List String) (text : String) : Submission n [⟨n, .imports paths, text⟩]
  | statement (text : String) : Submission n [⟨n, .statement, text⟩]
  | assignment (text : String) : Submission n [⟨n, .assignment, text⟩]
  | shownAssignment (text shown : String) :
      Submission n [⟨n, .assignment, text⟩, ⟨n, .print, shown⟩]
  | declaration (names : List String) (text : String) (named : names ≠ []) :
      Submission n [⟨n, .declaration names, text⟩, ⟨n, .companion, Entry.useText names⟩]
  | shownDeclaration (names : List String) (text shown : String) (named : names ≠ []) :
      Submission n [⟨n, .declaration names, text⟩, ⟨n, .companion, Entry.useText names⟩,
        ⟨n, .print, shown⟩]

/-- The entries of the submissions 1 to `n`, one after another. -/
inductive Submissions : Nat → List Entry → Prop
  | none : Submissions 0 []
  | next {n : Nat} {es g : List Entry} (before : Submissions n es) (last : Submission (n + 1) g) :
      Submissions (n + 1) (es ++ g)

namespace Submission

variable {n : Nat} {g : List Entry} {e : Entry}

theorem ne_nil (h : Submission n g) : g ≠ [] := by
  cases h <;> simp

theorem sequence_eq (h : Submission n g) (he : e ∈ g) : e.sequence = n := by
  cases h <;> simp only [List.mem_cons, List.not_mem_nil, or_false] at he
  case imports | statement | assignment => rw [he]
  case shownAssignment | declaration => rcases he with rfl | rfl <;> rfl
  case shownDeclaration => rcases he with rfl | rfl | rfl <;> rfl

/-- The user sees the first entry of a submission and no other. -/
theorem visible_eq (h : Submission n g) :
    ∃ e rest, g = e :: rest ∧ e.visible = true ∧ ∀ e' ∈ rest, e'.visible = false := by
  cases h
  all_goals refine ⟨_, _, rfl, rfl, ?_⟩
  all_goals simp [Entry.visible]

theorem length_visible (h : Submission n g) : (g.filter (·.visible)).length = 1 := by
  obtain ⟨e, rest, rfl, he, hrest⟩ := h.visible_eq
  have hnil : rest.filter (·.visible) = [] := by
    rw [List.filter_eq_nil_iff]
    intro e' he'
    rw [hrest e' he']
    exact Bool.false_ne_true
  rw [List.filter_cons_of_pos he, hnil]
  rfl

end Submission

namespace Log

/-- The part of a log up to the submission `k`. -/
def upTo (l : Log) (k : Nat) : Log := ⟨l.entries.filter (·.sequence ≤ k)⟩

/-- The part of a log before the submission `k`. -/
def before (l : Log) (k : Nat) : Log := ⟨l.entries.filter (·.sequence < k)⟩

end Log

namespace Submissions

variable {n : Nat} {es g : List Entry} {e : Entry}

theorem sequence_le (h : Submissions n es) (he : e ∈ es) : e.sequence ≤ n := by
  induction h with
  | none => exact absurd he List.not_mem_nil
  | next before last ih =>
    rcases List.mem_append.mp he with he | he
    · have := ih he
      omega
    · have := last.sequence_eq he
      omega

theorem lastSequence (h : Submissions n es) : (Log.mk es).lastSequence?.getD 0 = n := by
  cases h with
  | none => rfl
  | next before last =>
    rename_i n es g
    have hg := last.ne_nil
    have hlast := last.sequence_eq (List.getLast_mem hg)
    rw [Log.lastSequence?, List.getLast?_append, List.getLast?_eq_some_getLast hg]
    exact hlast

theorem eq_nil_of_lastSequence (h : Submissions n es) (hl : (Log.mk es).lastSequence? = .none) :
    n = 0 ∧ es = [] := by
  have hes : es = [] := by simpa [Log.lastSequence?] using hl
  refine ⟨?_, hes⟩
  rw [← h.lastSequence, hl]
  rfl

theorem eq_succ_of_lastSequence (h : Submissions n es) {m : Nat}
    (hl : (Log.mk es).lastSequence? = some m) : m = n ∧ ∃ k, n = k + 1 := by
  have hm := h.lastSequence
  rw [hl] at hm
  refine ⟨hm, ?_⟩
  cases h with
  | none => cases hl
  | next => exact ⟨_, rfl⟩

/-- Rolling back to the number behind the log takes off whatever was entered with it. -/
theorem rollback_append (h : Submissions n es) (hg : ∀ e ∈ g, e.sequence = n + 1) :
    (Log.mk (es ++ g)).rollback (n + 1) = ⟨es⟩ :=
  Log.rollback_append (fun _ he => Nat.lt_succ_of_le (h.sequence_le he))
    fun e he => Nat.le_of_eq (hg e he).symm

/-- Rolling back to the last number takes off the last submission. -/
theorem rollback_last (h : Submissions (n + 1) es) :
    ∃ es' g, es = es' ++ g ∧ Submissions n es' ∧ Submission (n + 1) g ∧
      (Log.mk es).rollback (n + 1) = ⟨es'⟩ := by
  cases h with
  | next before last =>
    exact ⟨_, _, rfl, before, last, before.rollback_append fun _ he => last.sequence_eq he⟩

/-- The log takes one more entry with the next number, and with it the entry's companion. -/
theorem append_next (h : Submissions n es) (hg : ∀ e ∈ g, e.sequence = n + 1)
    (he : e.sequence = n + 1) : (Log.mk (es ++ g)).append e = ⟨es ++ g ++ e.withCompanion⟩ := by
  have hacc : (Log.mk (es ++ g)).accepts e = true := by
    unfold Log.accepts
    cases hl : (Log.mk (es ++ g)).lastSequence? with
    | none => rfl
    | some m =>
      obtain ⟨last, hlast, rfl⟩ := Option.map_eq_some_iff.mp hl
      have hmem : last ∈ es ++ g := List.mem_of_getLast? hlast
      rw [decide_eq_true_iff, he]
      rcases List.mem_append.mp hmem with hm | hm
      · exact Nat.le_succ_of_le (h.sequence_le hm)
      · exact Nat.le_of_eq (hg last hm)
  rw [Log.append, Log.append?, if_pos hacc]
  rfl

theorem length_visible (h : Submissions n es) : (es.filter (·.visible)).length = n := by
  induction h with
  | none => rfl
  | next before last ih =>
    rw [List.filter_append, List.length_append, ih, last.length_visible]

/-- The submissions of a log, one by one. -/
theorem groups (h : Submissions n es) :
    ∃ gs : List (List Entry), gs.length = n ∧ es = gs.flatten ∧
      ∀ k (hk : k < gs.length), Submission (k + 1) gs[k] := by
  induction h with
  | none => exact ⟨[], rfl, rfl, fun k hk => absurd hk (Nat.not_lt_zero k)⟩
  | next before last ih =>
    rename_i n es g
    obtain ⟨gs, hlen, hes, hgs⟩ := ih
    refine ⟨gs ++ [g], by simp [hlen], by simp [hes], ?_⟩
    intro k hk
    rcases Nat.lt_or_ge k gs.length with hlt | hge
    · rw [List.getElem_append_left hlt]
      exact hgs k hlt
    · have hkn : k = gs.length := by
        rw [List.length_append, List.length_singleton] at hk
        omega
      subst hkn
      rw [List.getElem_concat_length rfl, hlen]
      exact last

/-! ### The parts of a log -/

theorem upTo_append_of_le (hg : Submission (n + 1) g) {k : Nat} (hk : k ≤ n) :
    (Log.mk (es ++ g)).upTo k = (Log.mk es).upTo k := by
  have hnil : g.filter (·.sequence ≤ k) = [] := by
    rw [List.filter_eq_nil_iff]
    intro e he
    rw [hg.sequence_eq he, decide_eq_true_iff]
    omega
  rw [Log.upTo, Log.upTo, List.filter_append, hnil, List.append_nil]

/-- Up to its last submission a log is the whole log. -/
theorem upTo_self (h : Submissions n es) : (Log.mk es).upTo n = ⟨es⟩ := by
  rw [Log.upTo, List.filter_eq_self.mpr]
  intro e he
  simpa using h.sequence_le he

/-- Before the next submission a log is what it was. -/
theorem before_append (h : Submissions n es) (hg : Submission (n + 1) g) :
    (Log.mk (es ++ g)).before (n + 1) = ⟨es⟩ := by
  have hself : es.filter (·.sequence < n + 1) = es := by
    rw [List.filter_eq_self]
    intro e he
    have := h.sequence_le he
    simpa using Nat.lt_succ_of_le this
  have hnil : g.filter (·.sequence < n + 1) = [] := by
    rw [List.filter_eq_nil_iff]
    intro e he
    simp [hg.sequence_eq he]
  rw [Log.before, List.filter_append, hself, hnil, List.append_nil]

end Submissions

end GoRepl
