import GoRepl.Proofs.Log.Contents
import GoRepl.Proofs.Session.Recording

/-! # Replaying a log

A new session into which the fragments of a log are entered unbuilt, imports first, takes each of
them as the log did, because it has the same names declared by then.  So its log has the same
contents.

* `Session.Replayed`: entering fragments unbuilt leads from one session to another.
* `Session.Replayed.next`: one more fragment.
* `Session.Entered.replayed`: the fragments of a log.
* `Session.replay_of_load`: replaying a transcript.
-/

namespace GoRepl.Session

open Framing

/-! ## What a fragment is -/

section Kind

variable {l l' : Log} {shape : Shape} {n : Nat} {text : String}

theorem isImport_entered (l : Log) (n : Nat) (shape : Shape) (text : String) :
    (⟨n, kindOf l shape, text⟩ : Entry).isImport = shape.isImport := by
  rw [← importing_withCompanion, importing_entered]

theorem visible_entered (l : Log) (n : Nat) (shape : Shape) (text : String) :
    (⟨n, kindOf l shape, text⟩ : Entry).visible = true ∧
      (⟨n, kindOf l shape, text⟩ : Entry).isPrint = false := by
  unfold kindOf
  repeat' split
  all_goals exact ⟨rfl, rfl⟩

/-- What a fragment adds to the imports of a log, -/
theorem imports_entered (es : List Entry) {shown : List Entry}
    (hshown : ∀ e ∈ shown, e.isPrint = true) :
    (Log.mk (es ++ ((⟨n, kindOf l shape, text⟩ : Entry).withCompanion ++ shown))).imports =
      (Log.mk es).imports ++ if shape.isImport then [⟨0, kindOf l shape, text⟩] else [] := by
  rw [Log.imports_append, Log.imports_submission hshown, isImport_entered]
  rfl

/-- and to its body. -/
theorem body_entered (es : List Entry) {shown : List Entry}
    (hshown : ∀ e ∈ shown, e.isPrint = true) :
    (Log.mk (es ++ ((⟨n, kindOf l shape, text⟩ : Entry).withCompanion ++ shown))).body =
      (Log.mk es).body ++
        if shape.isImport then [] else (⟨0, kindOf l shape, text⟩ : Entry).withCompanion := by
  rw [Log.body_append, Log.body_submission hshown (visible_entered _ _ _ _).2, isImport_entered]
  rfl

/-- What a fragment is depends on the declared names only, and what an import is on nothing. -/
theorem kindOf_congr (h : shape.isImport = true ∨ l'.body = l.body) :
    kindOf l' shape = kindOf l shape := by
  unfold kindOf
  rcases h with hi | hb
  · rw [if_pos hi, if_pos hi]
  · rw [funext (Log.isDeclared_eq hb)]

/-- What a log admits, another one with the same names declared does, too. -/
theorem Admits.congr (h : Admits l text shape) (hb : l'.body = l.body ∨ l'.body = []) :
    Admits l' text shape := by
  refine ⟨h.nonempty, ?_, h.shaped, h.kept⟩
  rcases hb with hb | hb
  · rw [Log.isDeclared_eq hb]
    exact h.undeclared
  · rw [Log.isDeclared_eq_any, hb]
    rfl

end Kind

/-! ## Entering fragments unbuilt -/

variable {s s' s'' : Session} {c : Toolchain} {fs gs : List String}

theorem accumulate_append (s : Session) (c : Toolchain) (fs gs : List String) :
    s.accumulate c (fs ++ gs) =
      ((s.accumulate c fs).1 ++ ((s.accumulate c fs).2.accumulate c gs).1,
        ((s.accumulate c fs).2.accumulate c gs).2) := by
  induction fs generalizing s with
  | nil => rfl
  | cons f fs ih =>
    rw [List.cons_append, accumulate, accumulate, ih]
    cases (s.submitWith c .accumulate false f).value <;> rfl

/-- A fragment that is entered unbuilt comes with its companion. -/
theorem submitWith_accumulate (h : s.Numbered) {fragment : String} {shape : Shape}
    (ha : Admits s.log (Text.trim fragment) shape) :
    s.submitWith c .accumulate false fragment = (s.extended
      (⟨s.sequence + 1, kindOf s.log shape, Text.trim fragment⟩ : Entry).withCompanion).unchanged
        (.ok "") := by
  rw [submitWith_of_admits ha, enter, append_entry h rfl]
  dsimp only
  split <;> rfl

theorem not_isPrint_extended (hs : ∀ e ∈ s.log.entries, e.isPrint = false) (n : Nat)
    (shape : Shape) (text : String) :
    ∀ e ∈ (s.extended (⟨n, kindOf s.log shape, text⟩ : Entry).withCompanion).log.entries,
      e.isPrint = false := by
  intro e he
  rcases List.mem_append.mp he with he | he
  · exact hs e he
  · rcases List.mem_cons.mp he with rfl | he
    · exact (visible_entered _ _ _ _).2
    · exact (Entry.kind_of_companion (Option.mem_toList.mp he)).2.1

/-- Entering the fragments unbuilt leads from `s` to `s'`, none is rejected, and nothing is
printed. -/
structure Replayed (s : Session) (c : Toolchain) (fs : List String) (s' : Session) : Prop where
  accumulated : s.accumulate c fs = ([], s')
  numbered : s'.Numbered
  silent : ∀ e ∈ s'.log.entries, e.isPrint = false

namespace Replayed

theorem trans (h : Replayed s c fs s') (h' : Replayed s' c gs s'') :
    Replayed s c (fs ++ gs) s'' := by
  refine ⟨?_, h'.numbered, h'.silent⟩
  rw [accumulate_append, h.accumulated, h'.accumulated]
  rfl

theorem next (h : Replayed s c fs s') {text : String} {shape : Shape} (ht : Text.trim text = text)
    (ha : Admits s'.log text shape) : ∃ s'', Replayed s c (fs ++ [text]) s'' ∧
      s''.log.imports = s'.log.imports ++
        (if shape.isImport then [⟨0, kindOf s'.log shape, text⟩] else []) ∧
      s''.log.body = s'.log.body ++
        if shape.isImport then [] else (⟨0, kindOf s'.log shape, text⟩ : Entry).withCompanion := by
  have hstep : s'.submitWith c .accumulate false text = (s'.extended
      (⟨s'.sequence + 1, kindOf s'.log shape, text⟩ : Entry).withCompanion).unchanged (.ok "") := by
    have ha' : Admits s'.log (Text.trim text) shape := by rwa [ht]
    rw [submitWith_accumulate h.numbered ha', ht]
  have hlog : (s'.extended
      (⟨s'.sequence + 1, kindOf s'.log shape, text⟩ : Entry).withCompanion).log =
        ⟨s'.log.entries ++
          ((⟨s'.sequence + 1, kindOf s'.log shape, text⟩ : Entry).withCompanion ++ [])⟩ := by
    rw [List.append_nil]
    rfl
  refine ⟨s'.extended (⟨s'.sequence + 1, kindOf s'.log shape, text⟩ : Entry).withCompanion,
    ⟨?_, ?_, not_isPrint_extended h.silent _ _ _⟩, ?_, ?_⟩
  · rw [accumulate_append, h.accumulated]
    simp only [accumulate, hstep]
    rfl
  · exact Submissions.next h.numbered (submission_entered _ _ _ _)
  · rw [hlog]
    exact imports_entered _ (List.forall_mem_nil _)
  · rw [hlog]
    exact body_entered _ (List.forall_mem_nil _)

end Replayed

/-! ## The fragments of a log -/

variable {n : Nat} {es : List Entry}

/-- The imports of a log are taken where nothing is declared, -/
theorem Entered.replayed_imports (h : Entered n es) (hs : Replayed s c [] s)
    (hb : s.log.body = []) :
    ∃ s', Replayed s c ((Log.mk es).imports.map (·.text)) s' ∧
      s'.log.imports = s.log.imports ++ (Log.mk es).imports ∧ s'.log.body = [] := by
  induction h with
  | none => exact ⟨s, hs, (List.append_nil _).symm, hb⟩
  | @next n es shown text shape _ _ trimmed admitted prints _ ih =>
    obtain ⟨s', hr, himports, hbody⟩ := ih
    rw [imports_entered es prints]
    -- other fragments wait for the second pass; until then nothing is declared
    cases hi : shape.isImport with
    | false =>
      refine ⟨s', ?_, ?_, hbody⟩
      · simpa using hr
      · simpa using himports
    | true =>
      obtain ⟨s'', hr', himports', hbody'⟩ := hr.next trimmed (admitted.congr (.inr hbody))
      have hkind : kindOf s'.log shape = kindOf ⟨es⟩ shape := kindOf_congr (.inl hi)
      rw [hi, if_pos rfl, hkind] at himports'
      rw [hi, if_pos rfl, hbody] at hbody'
      refine ⟨s'', ?_, ?_, hbody'⟩
      · simpa using hr'
      · simp [himports', himports]

/-- and its body is taken where nothing but imports is. -/
theorem Entered.replayed_body (h : Entered n es) (hs : Replayed s c [] s) (hb : s.log.body = []) :
    ∃ s', Replayed s c (((Log.mk es).body.filter (·.visible)).map (·.text)) s' ∧
      s'.log.imports = s.log.imports ∧ s'.log.body = (Log.mk es).body := by
  induction h with
  | none => exact ⟨s, hs, rfl, hb⟩
  | @next n es shown text shape _ _ trimmed admitted prints _ ih =>
    obtain ⟨s', hr, himports, hbody⟩ := ih
    rw [body_entered es prints]
    -- imports were taken before; the others find the names declared that they found in the log
    cases hi : shape.isImport with
    | true =>
      refine ⟨s', ?_, himports, ?_⟩
      · simpa using hr
      · simpa using hbody
    | false =>
      obtain ⟨s'', hr', himports', hbody'⟩ := hr.next trimmed (admitted.congr (.inl hbody))
      have hkind : kindOf s'.log shape = kindOf ⟨es⟩ shape := kindOf_congr (.inr hbody)
      have hvisible := Entry.filter_visible_withCompanion (visible_entered ⟨es⟩ 0 shape text).1
      rw [hi, hkind, hbody] at hbody'
      rw [hi] at himports'
      refine ⟨s'', ?_, ?_, hbody'⟩
      · simpa [hvisible] using hr'
      · simp [himports', himports]

/-- A new session takes the fragments of a log, imports first, and ends with the same contents. -/
theorem Entered.replayed (h : Entered n es) (hs : s.IsNew) : ∃ s',
    Replayed s c ((Log.mk es).listing.map (·.text)) s' ∧ (Log.mk es).SameContents s'.log := by
  have hstart : Replayed s c [] s := ⟨rfl, hs.numbered, by simp [hs.log]⟩
  have hempty : s.log.imports = [] ∧ s.log.body = [] := by
    rw [hs.log]
    exact ⟨rfl, rfl⟩
  obtain ⟨s₁, hr₁, himports₁, hbody₁⟩ := h.replayed_imports hstart hempty.2
  have hmiddle : Replayed s₁ c [] s₁ := ⟨rfl, hr₁.numbered, hr₁.silent⟩
  obtain ⟨s₂, hr₂, himports₂, hbody₂⟩ := h.replayed_body hmiddle hbody₁
  refine ⟨s₂, ?_, ?_, hbody₂⟩
  · rw [Log.map_text_listing]
    exact hr₁.trans hr₂
  · rw [himports₂, himports₁, hempty.1, List.nil_append]

/-! ## The transcript -/

/-- Replaying a transcript ends with the log into which its fragments were entered. -/
theorem replay_of_load {path : String} (ht : s.transcript = some path)
    (hl : Transcript.load s.files path = .ok fs) :
    ∃ t, s.replay c = .ok t ∧ t.session.log = (s.accumulate c fs).2.log := by
  unfold replay
  simp only [ht, hl, bind, Except.bind, pure, Except.pure]
  split
  · rename_i hnil
    rw [List.isEmpty_iff.mp hnil]
    exact ⟨_, rfl, rfl⟩
  · split
    · exact ⟨_, rfl, rfl⟩
    · exact ⟨_, rfl, (build_undisturbed _ c).log_eq⟩

end GoRepl.Session
