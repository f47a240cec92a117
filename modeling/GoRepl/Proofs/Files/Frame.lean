import GoRepl.Files.Tree

/-! # What an operation on files leaves alone

Writing or removing a file changes no directory, and no file at another location.  So a file that
is not at one of some locations is found the same after any number of operations there.

* `Tree.find?_put`, `Tree.find?_erase`: the nodes after a change.
* `Tree.write_eq_ok_iff`: when a file can be written, and what that changes.
* `Tree.SameOutside`: two trees with the same directories, and the same files outside of some
  locations.
* `Tree.SameOutside.write`, `Tree.SameOutside.remove`: one operation.
* `Tree.SameOutside.node_eq`: what a path that leads elsewhere names.
* `Tree.SameOutside.write_isOk`: what can be written stays writable.
* `Tree.readText_of_write`: what was written is read back.
* `Tree.exists_write_of_readText`: what can be read can be written.
-/

namespace GoRepl.Tree

/-! ## Nodes after a change -/

theorem find?_root (t : Tree) : t.find? [] = some .dir := rfl

theorem find?_of_ne_root (t : Tree) {l : Location} (h : l ≠ []) :
    t.find? l = t.nodes.lookup l := by
  have hl : l.isEmpty = false := by
    cases l with
    | nil => exact absurd rfl h
    | cons => rfl
  simp [find?, hl]

theorem lookup_replace (nodes : List (Location × Node)) (l l' : Location) (n : Node) :
    (nodes.map fun e => if e.1 = l then (l, n) else e).lookup l' =
      if l' = l then (nodes.lookup l).map fun _ => n else nodes.lookup l' := by
  induction nodes with
  | nil => simp
  | cons e nodes ih =>
    obtain ⟨k, m⟩ := e
    by_cases hk : k = l
    · subst hk
      by_cases hl : l' = k
      · subst hl
        simp
      · have hb : (l' == k) = false := beq_eq_false_iff_ne.mpr hl
        rw [List.map_cons, if_pos rfl, List.lookup_cons, hb, ih, if_neg hl, if_neg hl,
          List.lookup_cons, hb]
    · by_cases hl : l' = k
      · subst hl
        simp [hk]
      · have hb : (l' == k) = false := beq_eq_false_iff_ne.mpr hl
        have hb' : (l == k) = false := beq_eq_false_iff_ne.mpr (Ne.symm hk)
        rw [List.map_cons, if_neg hk, List.lookup_cons, List.lookup_cons, List.lookup_cons, hb,
          hb', ih]

theorem lookup_put (t : Tree) (l l' : Location) (n : Node) :
    (t.put l n).nodes.lookup l' = if l' = l then some n else t.nodes.lookup l' := by
  unfold put
  cases h : t.nodes.lookup l with
  | some m =>
    rw [lookup_replace, h]
    rfl
  | none =>
    rw [List.lookup_append]
    by_cases hl : l' = l
    · subst hl
      simp [h]
    · have hb : (l' == l) = false := beq_eq_false_iff_ne.mpr hl
      simp [List.lookup_cons, hb, hl]

theorem lookup_erase (t : Tree) (l l' : Location) :
    (t.erase l).nodes.lookup l' = if l' = l then none else t.nodes.lookup l' := by
  unfold erase
  induction t.nodes with
  | nil => simp
  | cons e nodes ih =>
    obtain ⟨k, m⟩ := e
    by_cases hk : k = l
    · subst hk
      rw [List.filter_cons_of_neg (by simp), ih]
      by_cases hl : l' = k
      · rw [if_pos hl, if_pos hl]
      · have hb : (l' == k) = false := beq_eq_false_iff_ne.mpr hl
        rw [if_neg hl, if_neg hl, List.lookup_cons, hb]
    · rw [List.filter_cons_of_pos (by simpa using hk), List.lookup_cons, List.lookup_cons, ih]
      by_cases hl : l' = k
      · subst hl
        simp [hk]
      · have hb : (l' == k) = false := beq_eq_false_iff_ne.mpr hl
        rw [hb]

/-- The node at a location after another one, or the same, was given a new node. -/
theorem find?_put (t : Tree) {l : Location} (hl : l ≠ []) (n : Node) (l' : Location) :
    (t.put l n).find? l' = if l' = l then some n else t.find? l' := by
  by_cases h : l' = []
  · subst h
    rw [find?_root, find?_root, if_neg (Ne.symm hl)]
  · rw [find?_of_ne_root _ h, find?_of_ne_root _ h, lookup_put]

/-- The node at a location after another one, or the same, was emptied. -/
theorem find?_erase (t : Tree) {l : Location} (hl : l ≠ []) (l' : Location) :
    (t.erase l).find? l' = if l' = l then none else t.find? l' := by
  by_cases h : l' = []
  · subst h
    rw [find?_root, find?_root, if_neg (Ne.symm hl)]
  · rw [find?_of_ne_root _ h, find?_of_ne_root _ h, lookup_erase]

/-! ## Where paths lead -/

theorem walk_location {t : Tree} {dir l : Location} {names : List String}
    (h : t.walk dir names = .ok l) : l = names.foldl Location.step dir := by
  induction names generalizing dir with
  | nil =>
    cases h
    rfl
  | cons name rest ih =>
    rw [walk] at h
    split at h
    · cases h
    · cases rest with
      | nil =>
        cases h
        rfl
      | cons name' rest' =>
        simp only [List.isEmpty_cons, Bool.false_eq_true, if_false] at h
        split at h
        · exact ih h
        · cases h
        · cases h

/-- A path that is not empty, has no NUL and is not too long names what its parts lead to. -/
theorem resolve_eq_ok_iff {t : Tree} {cwd : Location} {path : String} {target : Target} :
    t.resolve cwd path = .ok target ↔
      ¬path.isEmpty ∧ ¬path.contains '\x00' ∧ ¬path.utf8ByteSize > maxPath ∧
        t.walk (if Path.isAbsolute path then [] else cwd)
          ((Path.parts path).filter (· ≠ "")) = .ok target.location ∧
        target.asDir = ((Path.parts path).getLast? == some "") := by
  unfold resolve
  simp only [bind, Except.bind, pure, Except.pure, throw, throwThe, MonadExceptOf.throw]
  by_cases he : path.isEmpty
  · simp [he]
  by_cases hz : path.contains '\x00'
  · simp [he, hz]
  by_cases hs : path.utf8ByteSize > maxPath
  · simp [he, hz, hs]
  rw [if_neg he, if_neg hz, if_neg hs]
  obtain ⟨location, asDir⟩ := target
  cases t.walk (if Path.isAbsolute path then [] else cwd)
    ((Path.parts path).filter (· ≠ "")) with
  | error e => simp
  | ok l => simp [he, hz, hs, eq_comm]

theorem resolve_location {t : Tree} {cwd : Location} {path : String} {target : Target}
    (h : t.resolve cwd path = .ok target) : target.location = Location.ofPath cwd path := by
  obtain ⟨-, -, -, hw, -⟩ := resolve_eq_ok_iff.mp h
  exact walk_location hw

/-- A file can be written where there is no directory, and nothing else changes. -/
theorem write_eq_ok_iff {t t' : Tree} {cwd : Location} {path : String} {content : ByteArray} :
    t.write cwd path content = .ok t' ↔
      ∃ target, t.resolve cwd path = .ok target ∧ target.asDir = false ∧
        t.find? target.location ≠ some .dir ∧ t' = t.put target.location (.file content) := by
  unfold write
  simp only [bind, Except.bind, throw, throwThe, MonadExceptOf.throw, pure, Except.pure]
  cases t.resolve cwd path with
  | error e => simp
  | ok target =>
    by_cases ha : target.asDir = true
    · simp [ha]
    by_cases hd : t.find? target.location = some .dir
    · simp [ha, hd]
    simp only [if_neg ha, Except.ok.injEq, exists_eq_left']
    simp [ha, hd, eq_comm]

/-- A file that can be written can be written with any content. -/
theorem exists_write {t : Tree} {cwd : Location} {path : String} {content : ByteArray}
    (h : (t.write cwd path content).isOk = true) (content' : ByteArray) :
    ∃ t', t.write cwd path content' = .ok t' := by
  cases hw : t.write cwd path content with
  | error e =>
    rw [hw] at h
    cases h
  | ok t₁ =>
    obtain ⟨target, hr, ha, hd, -⟩ := write_eq_ok_iff.mp hw
    exact ⟨_, write_eq_ok_iff.mpr ⟨target, hr, ha, hd, rfl⟩⟩

/-! ## Frames -/

/-- `t'` has the directories of `t`, and outside of `ls` also its files. -/
structure SameOutside (ls : List Location) (t t' : Tree) : Prop where
  dir_iff : ∀ l, t'.find? l = some .dir ↔ t.find? l = some .dir
  find?_eq : ∀ l, l ∉ ls → t'.find? l = t.find? l

namespace SameOutside

variable {ls : List Location} {t t' t'' : Tree}

theorem refl (ls : List Location) (t : Tree) : SameOutside ls t t :=
  ⟨fun _ => Iff.rfl, fun _ _ => rfl⟩

theorem trans (h : SameOutside ls t t') (h' : SameOutside ls t' t'') : SameOutside ls t t'' :=
  ⟨fun l => (h'.dir_iff l).trans (h.dir_iff l),
    fun l hl => (h'.find?_eq l hl).trans (h.find?_eq l hl)⟩

theorem mono {ls' : List Location} (h : SameOutside ls t t') (hsub : ls ⊆ ls') :
    SameOutside ls' t t' :=
  ⟨h.dir_iff, fun l hl => h.find?_eq l fun hmem => hl (hsub hmem)⟩

/-- Setting a file where there is no directory. -/
theorem put (t : Tree) {l : Location} (content : ByteArray) (hl : l ∈ ls)
    (hd : t.find? l ≠ some .dir) : SameOutside ls t (t.put l (.file content)) := by
  have hr : l ≠ [] := fun h => hd (h ▸ find?_root t)
  constructor
  · intro l'
    rw [find?_put t hr]
    by_cases h : l' = l
    · subst h
      simp [hd]
    · rw [if_neg h]
  · intro l' hl'
    have h : l' ≠ l := fun h => hl' (h ▸ hl)
    rw [find?_put t hr, if_neg h]

/-- Emptying a location where there is no directory. -/
theorem erase (t : Tree) {l : Location} (hl : l ∈ ls) (hd : t.find? l ≠ some .dir) :
    SameOutside ls t (t.erase l) := by
  have hr : l ≠ [] := fun h => hd (h ▸ find?_root t)
  constructor
  · intro l'
    rw [find?_erase t hr]
    by_cases h : l' = l
    · subst h
      simp [hd]
    · rw [if_neg h]
  · intro l' hl'
    have h : l' ≠ l := fun h => hl' (h ▸ hl)
    rw [find?_erase t hr, if_neg h]

theorem write {cwd : Location} {path : String} {content : ByteArray}
    (hl : Location.ofPath cwd path ∈ ls) (h : t.write cwd path content = .ok t') :
    SameOutside ls t t' := by
  obtain ⟨target, hr, -, hd, rfl⟩ := write_eq_ok_iff.mp h
  exact put t content (resolve_location hr ▸ hl) hd

theorem remove (t : Tree) {cwd : Location} {path : String}
    (hl : Location.ofPath cwd path ∈ ls) : SameOutside ls t (t.remove cwd path) := by
  unfold Tree.remove
  split
  · rename_i c target hn hr
    refine erase t (resolve_location hr ▸ hl) ?_
    intro hd
    simp [Tree.node, hr, bind, Except.bind, hd, pure, Except.pure] at hn
  · exact refl ls t

/-! Paths are followed through directories only, so they lead to the same places. -/

theorem walk_eq (h : SameOutside ls t t') {dir l : Location} {names : List String}
    (hw : t.walk dir names = .ok l) : t'.walk dir names = .ok l := by
  induction names generalizing dir with
  | nil => exact hw
  | cons name rest ih =>
    rw [walk] at hw ⊢
    split at hw
    · cases hw
    · rename_i hn
      rw [if_neg hn]
      cases rest with
      | nil => exact hw
      | cons name' rest' =>
        simp only [List.isEmpty_cons, Bool.false_eq_true, if_false] at hw ⊢
        split at hw
        · rename_i hd
          rw [(h.dir_iff _).mpr hd]
          exact ih hw
        · cases hw
        · cases hw

theorem resolve_eq (h : SameOutside ls t t') {cwd : Location} {path : String} {target : Target}
    (hr : t.resolve cwd path = .ok target) : t'.resolve cwd path = .ok target := by
  obtain ⟨he, hz, hs, hw, ha⟩ := resolve_eq_ok_iff.mp hr
  exact resolve_eq_ok_iff.mpr ⟨he, hz, hs, h.walk_eq hw, ha⟩

/-- A path that leads elsewhere names the same node. -/
theorem node_eq (h : SameOutside ls t t') {cwd : Location} {path : String} {n : Node}
    (hl : Location.ofPath cwd path ∉ ls) (hn : t.node cwd path = .ok n) :
    t'.node cwd path = .ok n := by
  unfold node at hn ⊢
  cases ht : t.resolve cwd path with
  | error e => simp [ht, bind, Except.bind] at hn
  | ok target =>
    have hf := h.find?_eq target.location (resolve_location ht ▸ hl)
    simp only [ht, h.resolve_eq ht, hf, bind, Except.bind] at hn ⊢
    exact hn

theorem symm (h : SameOutside ls t t') : SameOutside ls t' t :=
  ⟨fun l => (h.dir_iff l).symm, fun l hl => (h.find?_eq l hl).symm⟩

/-- What a path that leads elsewhere names, if anything, is the same in both trees. -/
theorem toOption_node_eq (h : SameOutside ls t t') {cwd : Location} {path : String}
    (hl : Location.ofPath cwd path ∉ ls) :
    (t'.node cwd path).toOption = (t.node cwd path).toOption := by
  cases hn : t.node cwd path with
  | ok n => rw [h.node_eq hl hn]
  | error e =>
    cases hn' : t'.node cwd path with
    | error e' => rfl
    | ok n =>
      rw [h.symm.node_eq hl hn'] at hn
      cases hn

/-- What can be written can still be written, whatever the content. -/
theorem write_isOk (h : SameOutside ls t t') {cwd : Location} {path : String}
    {content content' : ByteArray} (hw : (t.write cwd path content).isOk = true) :
    (t'.write cwd path content').isOk = true := by
  obtain ⟨t₁, hok⟩ := exists_write hw content'
  obtain ⟨target, hr, ha, hd, -⟩ := write_eq_ok_iff.mp hok
  have hok' : t'.write cwd path content' = .ok _ := write_eq_ok_iff.mpr
    ⟨target, h.resolve_eq hr, ha, fun hd' => hd ((h.dir_iff _).mp hd'), rfl⟩
  rw [hok']
  rfl

end SameOutside

/-! ## Reading what was written -/

variable {t t' : Tree} {cwd : Location} {path : String}

theorem read_of_write {content : ByteArray} (h : t.write cwd path content = .ok t') :
    t'.read cwd path = .ok content := by
  have hs : SameOutside [Location.ofPath cwd path] t t' := .write List.mem_cons_self h
  obtain ⟨target, hr, ha, hd, rfl⟩ := write_eq_ok_iff.mp h
  have hroot : target.location ≠ [] := fun hl => hd (hl ▸ find?_root t)
  simp [read, node, hs.resolve_eq hr, find?_put t hroot, ha, bind, Except.bind, pure, Except.pure]

/-- A text that was written to a file is read back. -/
theorem readText_of_write {text : String} (h : t.write cwd path text.toUTF8 = .ok t') :
    t'.readText cwd path = .ok text := by
  have hutf8 : String.fromUTF8? text.toUTF8 = some text := dif_pos text.isValidUTF8
  simp only [readText, read_of_write h, hutf8, bind, Except.bind, pure, Except.pure]

/-- A file that can be read can be written. -/
theorem exists_write_of_readText {text : String} (h : t.readText cwd path = .ok text)
    (content : ByteArray) : ∃ t', t.write cwd path content = .ok t' := by
  unfold readText read node at h
  cases hr : t.resolve cwd path with
  | error e =>
    simp only [hr, bind, Except.bind] at h
    cases h
  | ok target =>
    simp only [hr, bind, Except.bind] at h
    cases hf : t.find? target.location with
    | none =>
      simp only [hf] at h
      cases h
    | some n =>
      cases n with
      | dir =>
        simp only [hf] at h
        cases h
      | file c =>
        cases hd : target.asDir with
        | true =>
          simp only [hf, hd] at h
          cases h
        | false => exact ⟨_, write_eq_ok_iff.mpr ⟨target, hr, hd, by simp [hf], rfl⟩⟩

end GoRepl.Tree
