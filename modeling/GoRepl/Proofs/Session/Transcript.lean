import GoRepl.Proofs.Files.Frame
import GoRepl.Proofs.Fragment.Framing
import GoRepl.Session.Transcript

/-! # Transcripts are read back

A transcript has nothing between its fragments but line feeds.  Still it is read back, because each
of its fragments goes on with its line feeds and not with its end.  Only behind the last fragment
nothing follows, so that one may be incomplete.

* `Transcript.Resumable`, `Transcript.fragments_ofFragments_iff`: the lists of fragments whose
  transcript is read back.
* `Transcript.fragments_ofFragments`, `Transcript.load_of_save`: complete fragments, and the file.
* `Transcript.fragments_collected`, `Transcript.resumable_fragments`: whatever is read from a text
  without carriage returns was collected, and is read back when it is saved.
* `Transcript.load_saved`: saving and loading.
-/

namespace GoRepl.Transcript

open Framing

variable {fs : List String}

/-- A complete fragment that has no carriage return. -/
structure Recordable (text : String) : Prop extends Whole text where
  plain : '\r' ∉ text.toList

theorem lines_ofFragments (h : ∀ f ∈ fs, '\r' ∉ f.toList) : Text.lines (ofFragments fs) =
    fs.flatMap fun f => (f.toList.splitOn '\n').map String.ofList := by
  unfold Text.lines ofFragments
  rw [Text.toList_unlines]
  induction fs with
  | nil => rfl
  | cons f fs ih =>
    obtain ⟨hf, hfs⟩ := List.forall_mem_cons.mp h
    rw [List.flatMap_cons, List.flatMap_cons, List.append_assoc, List.singleton_append,
      Text.linesOf_closed hf, List.map_append, ih hfs]

theorem Recordable.begun {text : String} (h : Recordable text) : Begun text := ⟨h.framed, h.opens⟩

/-- The lines of complete fragments are grouped into them, whatever follows. -/
theorem group_fragments {ls : List String} (h : ∀ f ∈ fs, Begun f)
    (hcomplete : ∀ f ∈ fs, needsMore f = false) :
    group "" (fs.flatMap (fun f => (f.toList.splitOn '\n').map String.ofList) ++ ls) =
      (fs ++ (group "" ls).1, (group "" ls).2) := by
  induction fs with
  | nil => rfl
  | cons f fs ih =>
    obtain ⟨hf, hfs⟩ := List.forall_mem_cons.mp h
    obtain ⟨hc, hcs⟩ := List.forall_mem_cons.mp hcomplete
    rw [List.flatMap_cons, List.append_assoc, group_begun hf, hc, if_neg Bool.false_ne_true,
      ih hfs hcs]
    rfl

/-- Fragments without carriage returns that begin with a line that is not blank, and go on with each
of their line feeds.  All but the last one are complete. -/
structure Resumable (fs : List String) : Prop where
  begun : ∀ f ∈ fs, Begun f
  plain : ∀ f ∈ fs, '\r' ∉ f.toList
  complete : ∀ f ∈ fs.dropLast, needsMore f = false

/-- The text of their transcript is read back. -/
theorem Resumable.fragments_ofFragments (h : Resumable fs) : fragments (ofFragments fs) = fs := by
  unfold fragments
  rw [lines_ofFragments h.plain]
  obtain rfl | ⟨fs, f, rfl⟩ := List.eq_nil_or_concat' fs
  · rfl
  obtain ⟨hfs, hf⟩ := List.forall_mem_append.mp h.begun
  have hf : Begun f := hf f (List.mem_singleton_self f)
  have hcomplete : ∀ g ∈ fs, needsMore g = false := by
    have hcs := h.complete
    rwa [List.dropLast_concat] at hcs
  rw [List.flatMap_append, group_fragments hfs hcomplete, List.flatMap_singleton,
    ← List.append_nil ((f.toList.splitOn '\n').map String.ofList), group_begun hf]
  cases needsMore f with
  | false => rfl
  | true =>
    have hne : f.isEmpty = false := String.isEmpty_eq_false_iff.mpr hf.opens.ne_empty
    simp [group, hne]

theorem Resumable.load_of_save {t t' : Tree} {path : String} (h : Resumable fs)
    (hsave : save t path fs = .ok t') : load t' path = .ok fs := by
  unfold load
  rw [Tree.readText_of_write hsave]
  exact congrArg Except.ok h.fragments_ofFragments

theorem Resumable.of_recordable (h : ∀ f ∈ fs, Recordable f) : Resumable fs where
  begun f hf := (h f hf).begun
  plain f hf := (h f hf).plain
  complete f hf := (h f (List.dropLast_subset fs hf)).complete

/-- The text of a transcript is read back. -/
theorem fragments_ofFragments (h : ∀ f ∈ fs, Recordable f) : fragments (ofFragments fs) = fs :=
  (Resumable.of_recordable h).fragments_ofFragments

/-- A transcript that was saved is loaded again. -/
theorem load_of_save {t t' : Tree} {path : String} (h : save t path fs = .ok t')
    (hfs : ∀ f ∈ fs, Recordable f) : load t' path = .ok fs :=
  (Resumable.of_recordable hfs).load_of_save h

/-! ## Whatever is read -/

theorem isLine_lines {text : String} (h : '\r' ∉ text.toList) : ∀ l ∈ Text.lines text, IsLine l :=
  fun l hl => ⟨Text.newline_not_mem_lines text l hl, Text.return_not_mem_lines h l hl⟩

/-- The fragments of a text are those that are grouped, and the unfinished end if there is one. -/
theorem fragments_cases (text : String) : ∃ fs rest, group "" (Text.lines text) = (fs, rest) ∧
    (rest = "" ∧ fragments text = fs ∨ rest ≠ "" ∧ fragments text = fs ++ [rest]) := by
  refine ⟨_, _, rfl, ?_⟩
  unfold fragments
  dsimp only
  split
  · rename_i hrest
    exact .inl ⟨String.isEmpty_iff.mp hrest, rfl⟩
  · rename_i hrest
    exact .inr ⟨fun he => hrest (String.isEmpty_iff.mpr he), rfl⟩

/-- What is read from a text without carriage returns was collected, an unfinished end included. -/
theorem fragments_collected {text : String} (h : '\r' ∉ text.toList) :
    ∀ f ∈ fragments text, Collected f := by
  obtain ⟨hgroup, hleft⟩ := group_collected .nothing (isLine_lines h)
  obtain ⟨fs, rest, hlines, ⟨-, hfs⟩ | ⟨hne, hfs⟩⟩ := fragments_cases text
  all_goals rw [hlines] at hgroup hleft; rw [hfs]
  · exact hgroup
  · obtain ⟨hrest, -⟩ := hleft.resolve_left hne
    exact List.forall_mem_append.mpr ⟨hgroup, List.forall_mem_singleton.mpr hrest⟩

/-- What is read is read back when it is saved. -/
theorem resumable_fragments {text : String} (h : '\r' ∉ text.toList) :
    Resumable (fragments text) := by
  have hcollected := fragments_collected h
  obtain ⟨hgroup, hleft⟩ := group_opens (.inl rfl) (isLine_lines h)
  -- only an unfinished end may be incomplete, and it is the last fragment
  obtain ⟨hopens, hcomplete⟩ : (∀ f ∈ fragments text, Opens f) ∧
      ∀ f ∈ (fragments text).dropLast, needsMore f = false := by
    obtain ⟨fs, rest, hlines, ⟨-, hfs⟩ | ⟨hne, hfs⟩⟩ := fragments_cases text
    all_goals rw [hlines] at hgroup hleft; rw [hfs]
    · exact ⟨fun f hf => (hgroup f hf).1, fun f hf => (hgroup f (List.dropLast_subset fs hf)).2⟩
    · have hrest : Opens rest := hleft.resolve_left hne
      rw [List.dropLast_concat]
      exact ⟨List.forall_mem_append.mpr ⟨fun f hf => (hgroup f hf).1,
        List.forall_mem_singleton.mpr hrest⟩, fun f hf => (hgroup f hf).2⟩
  exact ⟨fun f hf => ⟨(hcollected f hf).framed, hopens f hf⟩, fun f hf => (hcollected f hf).plain,
    hcomplete⟩

theorem return_not_mem_ofFragments (h : ∀ f ∈ fs, '\r' ∉ f.toList) :
    '\r' ∉ (ofFragments fs).toList := by
  unfold ofFragments
  rw [Text.toList_unlines, List.mem_flatMap]
  rintro ⟨f, hf, hr⟩
  rcases List.mem_append.mp hr with hr | hr
  · exact h f hf hr
  · cases List.mem_singleton.mp hr

/-- Of lists of fragments without carriage returns, these are all that are read back. -/
theorem fragments_ofFragments_iff (h : ∀ f ∈ fs, '\r' ∉ f.toList) :
    fragments (ofFragments fs) = fs ↔ Resumable fs := by
  constructor
  · intro hfs
    rw [← hfs]
    exact resumable_fragments (return_not_mem_ofFragments h)
  · exact Resumable.fragments_ofFragments

/-! ## Saving and loading -/

/-- Complete fragments are loaded after they were saved, if the file can be written at all; and
whatever is loaded from a file without carriage returns is loaded again after it was saved. -/
theorem load_saved (t : Tree) (path : String) :
    (∀ fs, (∀ f ∈ fs, Recordable f) → (t.write [] path .empty).isOk = true →
      ∃ t', save t path fs = .ok t' ∧ load t' path = .ok fs) ∧
    ∀ text, t.readText [] path = .ok text → '\r' ∉ text.toList →
      ∃ fs t', load t path = .ok fs ∧ save t path fs = .ok t' ∧ load t' path = .ok fs := by
  constructor
  · intro fs h hwrite
    obtain ⟨t', hsave⟩ := Tree.exists_write hwrite (ofFragments fs).toUTF8
    exact ⟨t', hsave, load_of_save hsave h⟩
  · intro text htext hplain
    obtain ⟨t', hsave⟩ := Tree.exists_write_of_readText htext (ofFragments (fragments text)).toUTF8
    have hload : load t path = .ok (fragments text) := by
      unfold load
      rw [htext]
    exact ⟨fragments text, t', hload, hsave, (resumable_fragments hplain).load_of_save hsave⟩

theorem load_saved_block :
    let t : Tree := ⟨[(["demo.changes"], .file "\nx\n\n \nf(\x60\n\n".toUTF8)]⟩
    let path := "/demo.changes"
    let fs := ["x := 1", "f(\n\n1)"]
    let fs' := ["x", "f(\x60\n"]
    (∃ t', save t path fs = .ok t' ∧ load t' path = .ok fs) ∧
      ∃ t', load t path = .ok fs' ∧ save t path fs' = .ok t' ∧ load t' path = .ok fs' := by
  intro t path fs fs'
  have hfs : ∀ f ∈ fs, Recordable f := by
    have hframed : ∀ f ∈ fs, Framed f := by decide +kernel
    have hcomplete : ∀ f ∈ fs, needsMore f = false := by decide +kernel
    have hopens : ∀ f ∈ fs,
        Text.isBlankText (String.ofList (f.toList.takeWhile (· ≠ '\n'))) = false := by
      decide +kernel
    have hplain : ∀ f ∈ fs, '\r' ∉ f.toList := by decide +kernel
    exact fun f hf => ⟨⟨hframed f hf, hcomplete f hf, hopens f hf⟩, hplain f hf⟩
  have hwrite : (t.write [] path .empty).isOk = true := by
    simp only [Tree.write, Tree.resolve, String.contains_char_eq]
    decide +kernel
  have htext : t.readText [] path = .ok "\nx\n\n \nf(\x60\n\n" := by
    simp only [Tree.readText, Tree.read, Tree.node, Tree.resolve, String.contains_char_eq]
    decide +kernel
  have hload : load t path = .ok fs' := by
    rw [load, htext]
    exact congrArg Except.ok (by decide +kernel)
  refine ⟨(load_saved t path).1 fs hfs hwrite, ?_⟩
  obtain ⟨fs₁, t', hload₁, hsave⟩ := (load_saved t path).2 _ htext (by decide +kernel)
  rw [hload] at hload₁
  cases hload₁
  exact ⟨t', hload, hsave⟩

end GoRepl.Transcript
