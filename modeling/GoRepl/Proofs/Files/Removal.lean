import GoRepl.Proofs.Files.Frame

/-! # Removing files

After a file was removed its path names nothing, and no other removal brings it back.  Removing
what is not there changes nothing.

* `Tree.node_eq_ok_iff`: what a path names.
* `Tree.has_remove_self`: a removed file is gone.
* `Tree.has_remove`: what is not there is not there after a removal.
* `Tree.remove_eq_self`: removing what is not there.
* `Tree.SameOutside.isDir_eq`, `Tree.SameOutside.read_eq`: what a frame keeps.
-/

namespace GoRepl.Tree

variable {t t' : Tree} {cwd : Location} {path path' : String} {n : Node}

/-- A path names the node at its location; a path that demands a directory names no file. -/
theorem node_eq_ok_iff :
    t.node cwd path = .ok n ↔
      ∃ target, t.resolve cwd path = .ok target ∧ t.find? target.location = some n ∧
        (target.asDir = true → n = .dir) := by
  unfold node
  simp only [bind, Except.bind, pure, Except.pure, throw, throwThe, MonadExceptOf.throw]
  cases t.resolve cwd path with
  | error e => simp
  | ok target =>
    simp only [Except.ok.injEq, exists_eq_left']
    cases t.find? target.location with
    | none => simp
    | some m =>
      cases m with
      | dir =>
        simp only [Except.ok.injEq, Option.some.injEq]
        exact ⟨fun h => ⟨h, fun _ => h.symm⟩, And.left⟩
      | file c =>
        by_cases ha : target.asDir = true
        · simp only [ha, if_true, reduceCtorEq, Option.some.injEq, forall_const, false_iff]
          rintro ⟨rfl, hdir⟩
          cases hdir
        · simp [ha]

theorem has_eq_false_iff : t.has cwd path = false ↔ ∀ n, t.node cwd path ≠ .ok n := by
  unfold has
  cases t.node cwd path with
  | error e => simp [Except.isOk, Except.toBool]
  | ok m => simp [Except.isOk, Except.toBool]

theorem isDir_iff : t.isDir cwd path = true ↔ t.node cwd path = .ok .dir := by
  unfold isDir
  cases t.node cwd path with
  | error e => simp
  | ok m => cases m <;> simp

/-- What is found after a removal was there before. -/
theorem find?_of_remove {l : Location} (h : (t.remove cwd path').find? l = some n) :
    t.find? l = some n := by
  unfold remove at h
  split at h
  · rename_i c target hn hr
    obtain ⟨target', hr', hf, -⟩ := node_eq_ok_iff.mp hn
    rw [hr] at hr'
    cases hr'
    have hroot : target.location ≠ [] := by
      intro he
      rw [he, find?_root] at hf
      cases hf
    rw [find?_erase t hroot] at h
    split at h
    · cases h
    · exact h
  · exact h

/-- What a path names after a removal it has named before. -/
theorem node_of_remove (h : (t.remove cwd path').node cwd path = .ok n) :
    t.node cwd path = .ok n := by
  have hframe : SameOutside [Location.ofPath cwd path'] t (t.remove cwd path') :=
    .remove t List.mem_cons_self
  obtain ⟨target, hr, hf, ha⟩ := node_eq_ok_iff.mp h
  exact node_eq_ok_iff.mpr ⟨target, hframe.symm.resolve_eq hr, find?_of_remove hf, ha⟩

theorem has_remove (h : t.has cwd path = false) : (t.remove cwd path').has cwd path = false := by
  rw [has_eq_false_iff] at h ⊢
  exact fun n hn => h n (node_of_remove hn)

/-- A file that was removed is gone. -/
theorem has_remove_self (h : t.isDir cwd path = false) :
    (t.remove cwd path).has cwd path = false := by
  rw [has_eq_false_iff]
  intro n hn
  have hbefore := node_of_remove hn
  cases n with
  | dir =>
    rw [isDir_iff.mpr hbefore] at h
    cases h
  | file c =>
    obtain ⟨target, hr, hf, -⟩ := node_eq_ok_iff.mp hbefore
    obtain ⟨target', hr', hf', -⟩ := node_eq_ok_iff.mp hn
    have hroot : target.location ≠ [] := by
      intro he
      rw [he, find?_root] at hf
      cases hf
    have hlocation : target'.location = target.location :=
      (resolve_location hr').trans (resolve_location hr).symm
    simp only [remove, hbefore, hr] at hf'
    rw [hlocation, find?_erase t hroot, if_pos rfl] at hf'
    cases hf'

/-- Removing what is not there changes nothing. -/
theorem remove_eq_self (h : t.has cwd path = false) : t.remove cwd path = t := by
  rw [has_eq_false_iff] at h
  unfold remove
  split
  · rename_i c target hn hr
    exact absurd hn (h _)
  · rfl

namespace SameOutside

variable {ls : List Location}

/-- A path names a directory in both trees or in none. -/
theorem isDir_eq (h : SameOutside ls t t') (cwd : Location) (path : String) :
    t'.isDir cwd path = t.isDir cwd path := by
  have hdir (s s' : Tree) (hs : SameOutside ls s s') (hn : s.node cwd path = .ok .dir) :
      s'.node cwd path = .ok .dir := by
    obtain ⟨target, hr, hf, ha⟩ := node_eq_ok_iff.mp hn
    exact node_eq_ok_iff.mpr ⟨target, hs.resolve_eq hr, (hs.dir_iff _).mpr hf, ha⟩
  rw [Bool.eq_iff_iff, isDir_iff, isDir_iff]
  exact ⟨hdir t' t h.symm, hdir t t' h⟩

/-- What is read from a path that leads elsewhere, if anything, is the same in both trees. -/
theorem toOption_read_eq (h : SameOutside ls t t') (hl : Location.ofPath cwd path ∉ ls) :
    (t'.read cwd path).toOption = (t.read cwd path).toOption := by
  have hnode := h.toOption_node_eq hl
  unfold read
  simp only [bind, Except.bind]
  cases hn : t.node cwd path with
  | ok n => rw [h.node_eq hl hn]
  | error e =>
    cases hn' : t'.node cwd path with
    | error e' => rfl
    | ok n =>
      rw [hn, hn'] at hnode
      cases hnode

theorem read_eq (h : SameOutside ls t t') (hl : Location.ofPath cwd path ∉ ls) {b : ByteArray}
    (hr : t.read cwd path = .ok b) : t'.read cwd path = .ok b := by
  have hread := h.toOption_read_eq hl
  rw [hr] at hread
  cases hr' : t'.read cwd path with
  | error e =>
    rw [hr'] at hread
    cases hread
  | ok b' =>
    rw [hr'] at hread
    cases hread
    rfl

end SameOutside

end GoRepl.Tree
