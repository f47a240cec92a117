import GoRepl.Build.Outcome
import GoRepl.Proofs.Files.Frame

/-! # What a build does

A build changes no file but its own ones.  It succeeds only if the compiler accepts the program,
and the program ends well and writes nothing to its error stream.

* `Staging.locations`, `Staging.scratchLocations`: where the files of builds are.
* `Workshop.build_sameOutside`: the frame of a build.
* `Toolchain.RunsCleanly`: a program that the toolchain compiles and runs without any complaint.
* `Workshop.build_success`: a successful build is a clean run of the program that was handed over.
* `Workshop.build_of_clean`: such a program builds wherever the files of builds can be written.
* `Workshop.build_rejected`: a rejected build shows what the compiler has put out.
-/

namespace GoRepl

/-! ## Empty output -/

namespace Text.Lossy

/-- Reading a byte gives a character, or leaves one unfinished. -/
theorem start_ne_nil (b : UInt8) : (start b).1 ≠ [] ∨ (start b).2 ≠ none := by
  unfold start
  dsimp only
  repeat' split
  all_goals simp

theorem step_ne_nil (p? : Option Partial) (b : UInt8) :
    (step p? b).1 ≠ [] ∨ (step p? b).2 ≠ none := by
  unfold step
  split
  · exact start_ne_nil b
  · dsimp only
    repeat' split
    all_goals simp

theorem decodeFrom_eq_nil {p? : Option Partial} {bs : List UInt8} (h : decodeFrom p? bs = []) :
    p? = none ∧ bs = [] := by
  induction bs generalizing p? with
  | nil =>
    cases p? with
    | none => exact ⟨rfl, rfl⟩
    | some p => simp [decodeFrom] at h
  | cons b bs ih =>
    rw [decodeFrom, List.append_eq_nil_iff] at h
    obtain ⟨hcs, hrest⟩ := h
    have hnone := (ih hrest).1
    rcases step_ne_nil p? b with hs | hs
    · exact absurd hcs hs
    · exact absurd hnone hs

theorem length_toList_loop (bytes : ByteArray) (i : Nat) (r : List UInt8) :
    (ByteArray.toList.loop bytes i r).length = r.length + (bytes.size - i) := by
  fun_induction ByteArray.toList.loop bytes i r with
  | case1 i r hi ih =>
    rw [ih, List.length_cons]
    omega
  | case2 i r hi =>
    rw [List.length_reverse]
    omega

/-- Bytes that read as no text are no bytes. -/
theorem size_of_decode_isEmpty {bytes : ByteArray} (h : (decode bytes).isEmpty = true) :
    bytes.size = 0 := by
  have hd : decodeFrom none bytes.toList = [] := by
    simpa [decode, String.isEmpty_iff] using h
  have hl : bytes.toList.length = 0 := by
    rw [(decodeFrom_eq_nil hd).2]
    rfl
  rw [ByteArray.toList, length_toList_loop] at hl
  simpa using hl

end Text.Lossy

/-! ## Clean runs -/

/-- The compiler accepts the program; the program ends with status 0, prints `output`, and writes
nothing to its error stream. -/
structure Toolchain.RunsCleanly (c : Toolchain) (program output : String) : Prop where
  compiles : ∃ t r, c.compile t program = .ok r ∧ r.status = .code 0
  runs : ∃ r, c.run program = .ok r ∧ r.status = .code 0 ∧ r.stderr.size = 0 ∧
    output = Text.Lossy.decode r.stdout

theorem ExitStatus.isSuccess_iff {s : ExitStatus} : s.isSuccess = true ↔ s = .code 0 := by
  simp [isSuccess]

theorem Outcome.ofRun_success {r : ProgramRun} {output : String}
    (h : Outcome.ofRun r = .success output) :
    r.status = .code 0 ∧ r.stderr.size = 0 ∧ output = Text.Lossy.decode r.stdout := by
  unfold ofRun at h
  dsimp only at h
  split at h
  · rename_i hs
    rw [Bool.and_eq_true] at hs
    cases h
    exact ⟨ExitStatus.isSuccess_iff.mp hs.1, Text.Lossy.size_of_decode_isEmpty hs.2, rfl⟩
  · cases h

namespace Workshop

variable {w : Workshop} {c : Toolchain} {t : Tree} {program output : String}

theorem launch_success (h : (w.launch c t program).1 = .success output) :
    ∃ r, c.run program = .ok r ∧ r.status = .code 0 ∧ r.stderr.size = 0 ∧
      output = Text.Lossy.decode r.stdout := by
  unfold launch at h
  split at h
  · cases h
  · split at h
    · cases h
    · split at h
      · cases h
      · rename_i r hr
        exact ⟨r, hr, Outcome.ofRun_success h⟩

theorem compile_success (h : (w.compile c t program).1 = .success output) :
    c.RunsCleanly program output ∧ (w.compile c t program).2.1 = true := by
  unfold compile at h ⊢
  split at h
  · cases h
  · rename_i t' _
    split at h
    · cases h
    · rename_i r hr
      dsimp only at h ⊢
      split at h
      · rename_i hs
        rw [if_pos hs]
        exact ⟨⟨⟨t', r, hr, ExitStatus.isSuccess_iff.mp hs⟩, launch_success h⟩, rfl⟩
      · cases h

theorem attempt_success (h : (w.attempt c t program).1 = .success output) :
    c.RunsCleanly program output ∧ (w.attempt c t program).2.1 = true := by
  unfold attempt at h ⊢
  split at h
  · cases h
  · exact compile_success h

/-- A successful build handed the program to the compiler and ran it cleanly. -/
theorem build_success (h : (w.build c t program).1 = .success output) :
    c.RunsCleanly program output ∧
      (w.build c t program).2.1 = some ⟨program, .success output⟩ := by
  have h' : (w.attempt c t program).1 = .success output := h
  obtain ⟨hrun, hasked⟩ := attempt_success h'
  refine ⟨hrun, ?_⟩
  simp [build, hasked, h']

end Workshop

/-! ## Frames -/

namespace Staging

/-- Where the files of builds are. -/
def locations (s : Staging) : List Location := s.all.map (Location.ofPath [])

/-- Where the files are that no build leaves behind. -/
def scratchLocations (s : Staging) : List Location := s.scratch.map (Location.ofPath [])

theorem scratchLocations_subset (s : Staging) : s.scratchLocations ⊆ s.locations :=
  List.map_subset _ (List.subset_append_left s.scratch [s.source])

end Staging

namespace Workshop

open GoRepl.Tree

theorem ofPath_mem {s : Staging} {path : String} (h : path ∈ s.all) :
    Location.ofPath [] path ∈ s.locations := List.mem_map_of_mem h

theorem ofPath_mem_scratch {s : Staging} {path : String} (h : path ∈ s.scratch) :
    Location.ofPath [] path ∈ s.scratchLocations := List.mem_map_of_mem h

theorem writeAll_sameOutside {ls : List Location} (files : List (String × ByteArray)) (t : Tree)
    (h : ∀ f ∈ files, Location.ofPath [] f.1 ∈ ls) : SameOutside ls t (writeAll t files) := by
  induction files generalizing t with
  | nil => exact .refl ls t
  | cons f files ih =>
    have hf := h f List.mem_cons_self
    have hrest := fun g hg => h g (List.mem_cons_of_mem f hg)
    have hstep : SameOutside ls t ((t.write [] f.1 f.2).toOption.getD t) := by
      cases hw : t.write [] f.1 f.2 with
      | error e => exact .refl ls t
      | ok t' => exact .write hf hw
    exact hstep.trans (ih _ hrest)

theorem removeAll_sameOutside {ls : List Location} (paths : List String) (t : Tree)
    (h : ∀ p ∈ paths, Location.ofPath [] p ∈ ls) : SameOutside ls t (removeAll t paths) := by
  induction paths generalizing t with
  | nil => exact .refl ls t
  | cons p paths ih =>
    have hp := h p List.mem_cons_self
    exact (SameOutside.remove t hp).trans (ih _ fun q hq => h q (List.mem_cons_of_mem p hq))

variable (w : Workshop) (c : Toolchain) (t : Tree) (program : String)

theorem launch_sameOutside : SameOutside w.staging.scratchLocations t (w.launch c t program).2 := by
  have hrun : Location.ofPath [] w.staging.runLog ∈ w.staging.scratchLocations :=
    ofPath_mem_scratch (by simp [Staging.scratch])
  have herr : Location.ofPath [] w.staging.errLog ∈ w.staging.scratchLocations :=
    ofPath_mem_scratch (by simp [Staging.scratch])
  unfold launch
  split
  · exact .refl _ t
  · rename_i t₁ h₁
    have f₁ := SameOutside.write hrun h₁
    split
    · exact f₁
    · rename_i t₂ h₂
      have f₂ := f₁.trans (SameOutside.write herr h₂)
      split
      · exact f₂
      · refine f₂.trans (writeAll_sameOutside _ _ ?_)
        simp only [List.mem_cons, List.not_mem_nil, or_false, forall_eq_or_imp, forall_eq]
        exact ⟨hrun, herr⟩

theorem artifacts_mem (r : CompilerRun) :
    ∀ f ∈ (w.staging.buildLog, r.output) ::
      (r.artifact.map fun a => (w.staging.artifact, a)).toList,
      Location.ofPath [] f.1 ∈ w.staging.scratchLocations := by
  intro f hf
  rw [List.mem_cons, Option.mem_toList, Option.map_eq_some_iff] at hf
  obtain rfl | ⟨a, -, rfl⟩ := hf
  · exact ofPath_mem_scratch (by simp [Staging.scratch])
  · exact ofPath_mem_scratch (by simp [Staging.scratch])

theorem compile_sameOutside :
    SameOutside w.staging.scratchLocations t (w.compile c t program).2.2 := by
  have hlog : Location.ofPath [] w.staging.buildLog ∈ w.staging.scratchLocations :=
    ofPath_mem_scratch (by simp [Staging.scratch])
  unfold compile
  split
  · exact .refl _ t
  · rename_i t₁ h₁
    have f₁ := SameOutside.write hlog h₁
    split
    · exact f₁
    · rename_i r _
      dsimp only
      have f₂ : SameOutside w.staging.scratchLocations t₁
          (writeAll t₁ ((w.staging.buildLog, r.output) ::
            (r.artifact.map fun a => (w.staging.artifact, a)).toList)) :=
        writeAll_sameOutside _ _ (artifacts_mem w r)
      split
      · exact (f₁.trans f₂).trans (launch_sameOutside w c _ program)
      · exact f₁.trans f₂

theorem attempt_sameOutside : SameOutside w.staging.locations t (w.attempt c t program).2.2 := by
  have hsrc : Location.ofPath [] w.staging.source ∈ w.staging.locations :=
    ofPath_mem (by simp [Staging.all])
  unfold attempt
  split
  · exact .refl _ t
  · rename_i t₁ h₁
    have hcompile := (compile_sameOutside w c t₁ program).mono w.staging.scratchLocations_subset
    exact (SameOutside.write hsrc h₁).trans hcompile

theorem sweep_sameOutside : SameOutside w.staging.locations t (w.sweep t) := by
  have hscratch : SameOutside w.staging.locations t (removeAll t w.staging.scratch) :=
    removeAll_sameOutside _ t fun p hp => ofPath_mem (List.mem_append_left _ hp)
  have hsrc : Location.ofPath [] w.staging.source ∈ w.staging.locations :=
    ofPath_mem (by simp [Staging.all])
  unfold sweep
  dsimp only
  split
  · exact hscratch
  · exact hscratch.trans (SameOutside.remove _ hsrc)

/-- A build changes no files but those of the staging paths. -/
theorem build_sameOutside : SameOutside w.staging.locations t (w.build c t program).2.2 :=
  (attempt_sameOutside w c t program).trans (sweep_sameOutside w _)

/-! ## Clean programs -/

/-- The files of builds can be written. -/
def Writable (w : Workshop) (t : Tree) : Prop :=
  ∀ path ∈ w.staging.all, (t.write [] path .empty).isOk = true

variable {w : Workshop} {c : Toolchain} {t t' : Tree} {program : String}

theorem Writable.sameOutside (h : w.Writable t)
    (hs : SameOutside w.staging.locations t t') : w.Writable t' :=
  fun path hp => hs.write_isOk (h path hp)

theorem Writable.write (h : w.Writable t) (path : String) (hp : path ∈ w.staging.all)
    (content : ByteArray) :
    ∃ t', t.write [] path content = .ok t' ∧ w.Writable t' := by
  obtain ⟨t', hw⟩ := exists_write (h path hp) content
  exact ⟨t', hw, h.sameOutside (.write (ofPath_mem hp) hw)⟩

theorem launch_of_clean (hw : w.Writable t) {r : ProgramRun} (hr : c.run program = .ok r) :
    (w.launch c t program).1 = .ofRun r := by
  obtain ⟨t₁, h₁, hw₁⟩ := hw.write w.staging.runLog
    (by simp [Staging.all, Staging.scratch]) .empty
  obtain ⟨t₂, h₂, -⟩ := hw₁.write w.staging.errLog
    (by simp [Staging.all, Staging.scratch]) .empty
  simp only [launch, h₁, h₂, hr]

/-- A program that the compiler accepts is run, and the build ends as the program does. -/
theorem build_of_clean (hw : w.Writable t)
    (hc : ∀ t', ∃ r, c.compile t' program = .ok r ∧ r.status = .code 0) {r : ProgramRun}
    (hr : c.run program = .ok r) : (w.build c t program).1 = .ofRun r := by
  obtain ⟨t₁, h₁, hw₁⟩ := hw.write w.staging.source (by simp [Staging.all])
    program.toUTF8
  obtain ⟨t₂, h₂, hw₂⟩ := hw₁.write w.staging.buildLog
    (by simp [Staging.all, Staging.scratch]) .empty
  obtain ⟨r', hr', hs⟩ := hc t₂
  have hart : SameOutside w.staging.scratchLocations t₂
      (writeAll t₂ ((w.staging.buildLog, r'.output) ::
        (r'.artifact.map fun a => (w.staging.artifact, a)).toList)) :=
    writeAll_sameOutside _ _ (artifacts_mem w r')
  have hrun := launch_of_clean
    (hw₂.sameOutside (hart.mono w.staging.scratchLocations_subset)) hr
  simp only [build, attempt, compile, h₁, h₂, hr', hs, ExitStatus.isSuccess_iff.mpr, if_true, hrun]

/-! ## Rejected programs -/

/-- The compiler is asked about the program with its source written and an empty log, and rejects it
with this output. -/
def Rejects (w : Workshop) (c : Toolchain) (t : Tree) (program output : String) : Prop :=
  ∃ t₁ t₂ r, t.write [] w.staging.source program.toUTF8 = .ok t₁ ∧
    t₁.write [] w.staging.buildLog .empty = .ok t₂ ∧ c.compile t₂ program = .ok r ∧
    r.status.isSuccess = false ∧ Text.Lossy.decode r.output = output

theorem launch_ne_rejected (w : Workshop) (c : Toolchain) (t : Tree) (program d : String) :
    (w.launch c t program).1 ≠ .rejected d := by
  unfold launch
  split
  · exact nofun
  · split
    · exact nofun
    · split
      · exact nofun
      · unfold Outcome.ofRun
        dsimp only
        split <;> exact nofun

theorem attempt_rejected {d : String} (h : (w.attempt c t program).1 = .rejected d) :
    ∃ output, w.Rejects c t program output ∧ d = Diagnostics.filterNoise output := by
  unfold attempt at h
  split at h
  · cases h
  rename_i t₁ h₁
  unfold compile at h
  split at h
  · cases h
  rename_i t₂ h₂
  split at h
  · cases h
  rename_i r hr
  dsimp only at h
  split at h
  · exact absurd h (launch_ne_rejected w c _ program d)
  · rename_i hs
    cases h
    exact ⟨_, ⟨t₁, t₂, r, h₁, h₂, hr, by simpa using hs, rfl⟩, rfl⟩

/-- A build that ends with a rejection shows what the compiler has put out. -/
theorem build_rejected {b : Build} {d : String} (hb : (w.build c t program).2.1 = some b)
    (hd : b.outcome = .rejected d) :
    (w.build c t program).1 = .rejected d ∧
      ∃ output, w.Rejects c t program output ∧ d = Diagnostics.filterNoise output := by
  have hout : (w.build c t program).1 = b.outcome := by
    unfold build at hb ⊢
    dsimp only at hb ⊢
    split at hb
    · cases hb
      rfl
    · cases hb
  have hrejected : (w.build c t program).1 = .rejected d := hout.trans hd
  exact ⟨hrejected, attempt_rejected hrejected⟩

/-- Wherever the files of builds can be written, a program that the compiler rejects is rejected. -/
theorem build_of_rejected (hw : w.Writable t) {r : CompilerRun}
    (hc : ∀ t', c.compile t' program = .ok r) (hs : r.status.isSuccess = false) :
    (w.build c t program).2.1 =
      some ⟨program, .rejected (Diagnostics.filterNoise (Text.Lossy.decode r.output))⟩ := by
  obtain ⟨t₁, h₁, hw₁⟩ := hw.write w.staging.source (by simp [Staging.all]) program.toUTF8
  obtain ⟨t₂, h₂, -⟩ := hw₁.write w.staging.buildLog
    (by simp [Staging.all, Staging.scratch]) .empty
  simp only [build, attempt, compile, h₁, h₂, hc, hs, Bool.false_eq_true, if_false, if_true]

end Workshop

/-- A toolchain that accepts every program, none of which prints anything. -/
def Toolchain.silent : Toolchain where
  compile := fun _ _ => .ok ⟨.code 0, .empty, none⟩
  run := fun _ => .ok ⟨.code 0, .empty, .empty⟩

theorem Workshop.build_silent {w : Workshop} {t : Tree} (hw : w.Writable t) (program : String) :
    (w.build .silent t program).1 = .success "" := by
  rw [w.build_of_clean hw (fun _ => ⟨_, rfl, rfl⟩) rfl]
  decide +kernel

end GoRepl
