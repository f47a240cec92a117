import GoRepl.Proofs.Build.Effect
import GoRepl.Proofs.Files.Names
import GoRepl.Proofs.Files.Removal

/-! # What a build leaves behind

The files of a build are named after its program, and no two of them have one name; the transcript
of a project of that name has yet another one.  So removing them touches nothing else, and the
source keeps the program text while the rest is removed.

All this is about the ideal tree, in which a file can be removed whenever it is there: no permission
and no link is in the way.  Of the commands it is assumed that they write the artifact and the logs
only.

* `Staging.names`: the names of the files of a build.
* `Staging.ofPath_join_notMem`: any other name leads elsewhere.
* `Workshop.staged`: the files that the commands of a build find.
* `Workshop.Swept`: what is left of a build.
* `Workshop.sweep_swept`: whatever the commands do to the artifact and the logs.
* `Workshop.build_leaves`: after a build, and after its leftovers are removed.
-/

namespace GoRepl

namespace Staging

/-- The names of the files of a program called `image`, the source last. -/
def names (image : String) : List String :=
  [image, image ++ ".build.log", image ++ ".run.log", image ++ ".err.log", image ++ ".go"]

theorem all_inDir (dir image : String) :
    (inDir dir image).all = (names image).map (Path.join dir) := rfl

variable {image : String}

theorem isName_of_mem_names (h : Path.IsName image) {name : String} (hname : name ∈ names image) :
    Path.IsName name := by
  simp only [names, List.mem_cons, List.not_mem_nil, or_false] at hname
  rcases hname with rfl | rfl | rfl | rfl | rfl
  · exact h
  · exact h.append (by decide) (by decide)
  · exact h.append (by decide) (by decide)
  · exact h.append (by decide) (by decide)
  · exact h.append (by decide) (by decide)

/-- Another name leads to none of the files of a build. -/
theorem ofPath_join_notMem (h : Path.IsName image) {name : String} (hname : Path.IsName name)
    (hother : name ∉ names image) (dir : String) :
    Location.ofPath [] (Path.join dir name) ∉ (inDir dir image).locations := by
  rw [locations, all_inDir, List.map_map, List.mem_map]
  rintro ⟨name', hname', he⟩
  have hsame := (Location.ofPath_join_inj (isName_of_mem_names h hname') hname [] dir).mp he
  exact hother (hsame ▸ hname')

/-- The source is none of the files that are always removed. -/
theorem source_notMem_scratchLocations (h : Path.IsName image) (dir : String) :
    Location.ofPath [] (inDir dir image).source ∉ (inDir dir image).scratchLocations := by
  have hscratch : (inDir dir image).scratch = (names image).dropLast.map (Path.join dir) := rfl
  have hsource : (inDir dir image).source = Path.join dir (image ++ ".go") := rfl
  rw [scratchLocations, hscratch, hsource, List.map_map, List.mem_map]
  rintro ⟨name, hname, he⟩
  have hmem : name ∈ names image := List.dropLast_subset _ hname
  have hgo : Path.IsName (image ++ ".go") := isName_of_mem_names h (by simp [names])
  rw [Function.comp_apply, Location.ofPath_join_inj (isName_of_mem_names h hmem) hgo] at he
  subst he
  simp [names] at hname

theorem changes_notMem_names (image : String) : image ++ ".changes" ∉ names image := by
  simp [names]

end Staging

namespace Workshop

open GoRepl.Tree

variable {t t' : Tree} {paths : List String} {path : String}

/-! ## Removing files one after another -/

theorem has_removeAll (paths : List String) (h : t.has [] path = false) :
    (removeAll t paths).has [] path = false := by
  unfold removeAll
  induction paths generalizing t with
  | nil => exact h
  | cons p paths ih => exact ih (has_remove h)

theorem has_removeAll_of_mem (hdirs : ∀ p ∈ paths, t.isDir [] p = false) (hp : path ∈ paths) :
    (removeAll t paths).has [] path = false := by
  induction paths generalizing t with
  | nil => cases hp
  | cons p paths ih =>
    obtain ⟨hdir, hrest⟩ := List.forall_mem_cons.mp hdirs
    rcases List.mem_cons.mp hp with rfl | hp
    · exact has_removeAll paths (has_remove_self hdir)
    · have hframe : SameOutside [Location.ofPath [] p] t (t.remove [] p) :=
        .remove t List.mem_cons_self
      exact ih (fun q hq => (hframe.isDir_eq [] q).trans (hrest q hq)) hp

theorem removeAll_eq_self (h : ∀ p ∈ paths, t.has [] p = false) : removeAll t paths = t := by
  unfold removeAll
  induction paths with
  | nil => rfl
  | cons p paths ih =>
    obtain ⟨hp, hrest⟩ := List.forall_mem_cons.mp h
    rw [List.foldl_cons, remove_eq_self hp, ih hrest]

/-! ## After a build -/

/-- The tree that the commands of a build find: with the source, if it can be written. -/
def staged (w : Workshop) (t : Tree) (program : String) : Tree :=
  (t.write [] w.staging.source program.toUTF8).toOption.getD t

/-- What is left of the build of a program: no artifact and no logs, the source only if it is to be
kept, and then with the program text unless it could not be written. -/
structure Swept (w : Workshop) (program : String) (t t' : Tree) : Prop where
  scratch : ∀ path ∈ w.staging.scratch, t'.has [] path = false
  source : t'.has [] w.staging.source = true → w.keepSource = true
  text : w.keepSource = true → (t.write [] w.staging.source program.toUTF8).isOk = true →
    t'.read [] w.staging.source = .ok program.toUTF8
  frame : SameOutside w.staging.locations t t'

variable {w : Workshop} {c : Toolchain} {t₁ : Tree} {program : String}

theorem staged_sameOutside (w : Workshop) (t : Tree) (program : String) :
    SameOutside w.staging.locations t (w.staged t program) := by
  unfold staged
  cases hw : t.write [] w.staging.source program.toUTF8 with
  | error e => exact .refl _ t
  | ok t' => exact .write (ofPath_mem (by simp [Staging.all])) hw

/-- The commands of a build write the artifact and the logs only. -/
theorem attempt_sameOutside_staged (w : Workshop) (c : Toolchain) (t : Tree) (program : String) :
    SameOutside w.staging.scratchLocations (w.staged t program) (w.attempt c t program).2.2 := by
  unfold attempt staged
  cases hw : t.write [] w.staging.source program.toUTF8 with
  | error e => exact .refl _ t
  | ok t' => exact compile_sameOutside w c t' program

theorem read_staged (h : (t.write [] w.staging.source program.toUTF8).isOk = true) :
    (w.staged t program).read [] w.staging.source = .ok program.toUTF8 := by
  obtain ⟨t', hw⟩ := exists_write h program.toUTF8
  have hstaged : w.staged t program = t' := by rw [staged, hw]; rfl
  exact hstaged ▸ read_of_write hw

/-- Whatever the commands have done to the artifact and the logs, sweeping leaves the source at
most. -/
theorem sweep_swept (hdirs : ∀ path ∈ w.staging.all, t.isDir [] path = false)
    (hsource : Location.ofPath [] w.staging.source ∉ w.staging.scratchLocations)
    (h : SameOutside w.staging.scratchLocations (w.staged t program) t₁) :
    w.Swept program t (w.sweep t₁) := by
  have hmono := h.mono w.staging.scratchLocations_subset
  have hframe : SameOutside w.staging.locations t t₁ :=
    (staged_sameOutside w t program).trans hmono
  have hdirs₁ : ∀ path ∈ w.staging.all, t₁.isDir [] path = false := fun path hp =>
    (hframe.isDir_eq [] path).trans (hdirs path hp)
  have hscratch : ∀ path ∈ w.staging.scratch,
      (removeAll t₁ w.staging.scratch).has [] path = false := fun path hp =>
    has_removeAll_of_mem (fun p hp => hdirs₁ p (List.mem_append_left _ hp)) hp
  have hremoved : SameOutside w.staging.scratchLocations t₁ (removeAll t₁ w.staging.scratch) :=
    removeAll_sameOutside _ t₁ fun p hp => ofPath_mem_scratch hp
  have hsweep := hframe.trans (sweep_sameOutside w t₁)
  unfold sweep at hsweep ⊢
  cases hkeep : w.keepSource with
  | true =>
    simp only [hkeep, if_true] at hsweep ⊢
    refine ⟨hscratch, fun _ => hkeep, fun _ hwritten => ?_, hsweep⟩
    exact hremoved.read_eq hsource (h.read_eq hsource (read_staged hwritten))
  | false =>
    simp only [hkeep, Bool.false_eq_true, if_false] at hsweep ⊢
    have hdir : (removeAll t₁ w.staging.scratch).isDir [] w.staging.source = false :=
      (hremoved.isDir_eq [] _).trans (hdirs₁ _ (by simp [Staging.all]))
    refine ⟨fun path hp => has_remove (hscratch path hp), fun hhas => ?_, fun hk => ?_, hsweep⟩
    · rw [has_remove_self hdir] at hhas
      cases hhas
    · rw [hkeep] at hk
      cases hk

/-- Removing the leftovers of a build is removing the source. -/
theorem Swept.cleanUp_eq (h : w.Swept program t t') :
    w.cleanUp t' = t'.remove [] w.staging.source := by
  have hscratch := removeAll_eq_self h.scratch
  unfold cleanUp removeAll Staging.all at *
  rw [List.foldl_append, hscratch, List.foldl_cons, List.foldl_nil]

theorem Swept.has_cleanUp (hdirs : ∀ path ∈ w.staging.all, t.isDir [] path = false)
    (h : w.Swept program t t') : ∀ path ∈ w.staging.all, (w.cleanUp t').has [] path = false :=
  fun _ hp => has_removeAll_of_mem
    (fun p hp => (h.frame.isDir_eq [] p).trans (hdirs p hp)) hp

theorem Swept.find?_cleanUp (h : w.Swept program t t') {l : Location}
    (hl : l ≠ Location.ofPath [] w.staging.source) : (w.cleanUp t').find? l = t'.find? l := by
  have hframe : SameOutside [Location.ofPath [] w.staging.source] t' (w.cleanUp t') :=
    h.cleanUp_eq ▸ .remove t' List.mem_cons_self
  exact hframe.find?_eq l (by simpa using hl)

/-- After a build in a directory the artifact and the logs are gone, and the source is there only if
it is to be kept, with the program text if it could be written; so it is whatever the commands do to
the artifact and the logs.  All other files of the directory, the transcript among them, are as
before.  Cleaning up then removes the source too, and nothing else.

The paths of the build must not name directories, as removing a file leaves these.  That nothing
else keeps a file from being removed, and that the commands leave other files alone, is how `Tree`
and `Toolchain` are made. -/
theorem build_leaves (dir image program : String) (keepSource : Bool) (t : Tree)
    (hname : Path.IsName image)
    (hdirs : ∀ path ∈ (Staging.inDir dir image).all, t.isDir [] path = false) :
    let w : Workshop := ⟨Staging.inDir dir image, keepSource⟩
    (∀ c, w.Swept program t (w.build c t program).2.2) ∧
      (∀ t₁, SameOutside w.staging.scratchLocations (w.staged t program) t₁ →
        w.Swept program t (w.sweep t₁)) ∧
      ∀ t', w.Swept program t t' →
        (∀ name, Path.IsName name → name ∉ Staging.names image →
          (t'.read [] (Path.join dir name)).toOption =
            (t.read [] (Path.join dir name)).toOption) ∧
        (t'.read [] (transcriptPath dir image)).toOption =
          (t.read [] (transcriptPath dir image)).toOption ∧
        (∀ path ∈ w.staging.all, (w.cleanUp t').has [] path = false) ∧
        ∀ l, l ≠ Location.ofPath [] w.staging.source → (w.cleanUp t').find? l = t'.find? l := by
  intro w
  have hsource := Staging.source_notMem_scratchLocations hname dir
  have hswept (t₁ : Tree)
      (h : SameOutside w.staging.scratchLocations (w.staged t program) t₁) :
      w.Swept program t (w.sweep t₁) := sweep_swept hdirs hsource h
  refine ⟨fun c => hswept _ (attempt_sameOutside_staged w c t program), hswept, ?_⟩
  intro t' h
  have hother (name : String) (hn : Path.IsName name) (hne : name ∉ Staging.names image) :=
    h.frame.toOption_read_eq (Staging.ofPath_join_notMem hname hn hne dir)
  have hchanges : Path.IsName (image ++ ".changes") := hname.append (by decide) (by decide)
  exact ⟨hother, hother _ hchanges (Staging.changes_notMem_names image), h.has_cleanUp hdirs,
    fun l hl => h.find?_cleanUp hl⟩

/-- A program that fails leaves its source beside the transcript, until that is cleaned up. -/
theorem leaves_source :
    let t : Tree := ⟨[(["s"], .dir), (["s", "image.changes"], .file "x\n".toUTF8),
      (["s", "image.run.log"], .file "old".toUTF8)]⟩
    let c : Toolchain := ⟨fun _ _ => .ok ⟨.code 0, .empty, some "binary".toUTF8⟩,
      fun _ => .ok ⟨.code 2, .empty, "panic".toUTF8⟩⟩
    let w : Workshop := ⟨Staging.inDir "/s" "image", true⟩
    let t' := (w.build c t "package main").2.2
    w.Swept "package main" t t' ∧
      t'.read [] "/s/image.go" = .ok "package main".toUTF8 ∧
      (t'.read [] "/s/image.changes").toOption = some "x\n".toUTF8 ∧
      ∀ path ∈ w.staging.all, (w.cleanUp t').has [] path = false := by
  intro t c w t'
  have hname : Path.IsName "image" := ⟨by decide, by decide, by decide, by decide +kernel⟩
  have hdirs : ∀ path ∈ w.staging.all, t.isDir [] path = false := by
    simp only [Tree.isDir, Tree.node, Tree.resolve, String.contains_char_eq]
    decide +kernel
  have hwrite : (t.write [] w.staging.source "package main".toUTF8).isOk = true := by
    simp only [Tree.write, Tree.resolve, String.contains_char_eq]
    decide +kernel
  have hread : (t.read [] (transcriptPath "/s" "image")).toOption = some "x\n".toUTF8 := by
    simp only [Tree.read, Tree.node, Tree.resolve, String.contains_char_eq]
    decide +kernel
  obtain ⟨hbuild, -, hafter⟩ := build_leaves "/s" "image" "package main" true t hname hdirs
  have hswept := hbuild c
  obtain ⟨-, hchanges, hclean, -⟩ := hafter t' hswept
  exact ⟨hswept, hswept.text rfl hwrite, hchanges.trans hread, hclean⟩

end Workshop

end GoRepl
