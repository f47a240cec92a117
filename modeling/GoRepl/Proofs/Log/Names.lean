import GoRepl.Proofs.Log.Rollback

/-! # The declared names of a log

The declared names are the names of all declarations, each where it comes first.  They only grow at
their end when the log does, so rolling back takes names off their end, or none.

* `Log.distinct_concat`: how the distinct names of a list grow by one more.
* `Log.mem_distinct`, `Log.pairwise_distinct`: which names they are, and in which order.
* `Log.distinct_prefix`, `Log.declaredNames_prefix`: going on with more names or entries.
* `Log.ListsNames`, `Log.listsNames`: the laws of the declared names.
-/

namespace GoRepl.Log

variable {x : String}

/-! ## Distinct names -/

theorem distinct_concat (names : List String) (x : String) : distinct (names ++ [x]) =
    if x ∈ distinct names then distinct names else distinct names ++ [x] := by
  unfold distinct
  rw [List.foldl_append]
  rfl

theorem mem_distinct (names : List String) : x ∈ distinct names ↔ x ∈ names := by
  induction names using List.reverseRecOn with
  | nil => rfl
  | append_singleton names y ih =>
    rw [distinct_concat, List.mem_append, List.mem_singleton, ← ih]
    split
    · rename_i hy
      constructor
      · exact .inl
      · rintro (hx | rfl)
        · exact hx
        · exact hy
    · rw [List.mem_append, List.mem_singleton]

/-- The distinct names stand in the order of their first occurrences. -/
theorem pairwise_distinct (names : List String) :
    (distinct names).Pairwise fun x y => names.idxOf x < names.idxOf y := by
  -- on the names from the left: a further one is not found before those that are there
  induction names using List.reverseRecOn with
  | nil => exact .nil
  | append_singleton names z ih =>
    have hold : ∀ {x}, x ∈ distinct names → (names ++ [z]).idxOf x = names.idxOf x := by
      intro x hx
      exact List.idxOf_append_of_mem ((mem_distinct names).mp hx)
    have hbefore : (distinct names).Pairwise fun x y =>
        (names ++ [z]).idxOf x < (names ++ [z]).idxOf y := by
      refine ih.imp_of_mem fun hx hy h => ?_
      rwa [hold hx, hold hy]
    rw [distinct_concat]
    split
    · exact hbefore
    · rename_i hz
      refine List.pairwise_append.mpr ⟨hbefore, List.pairwise_singleton _ z, fun x hx y hy => ?_⟩
      obtain rfl := List.mem_singleton.mp hy
      have hlast : y ∉ names := fun hmem => hz ((mem_distinct names).mpr hmem)
      rw [hold hx, List.idxOf_append_of_notMem hlast, List.idxOf_cons_self, Nat.add_zero]
      exact List.idxOf_lt_length_of_mem ((mem_distinct names).mp hx)

theorem nodup_distinct (names : List String) : (distinct names).Nodup :=
  (pairwise_distinct names).imp fun h he => by
    rw [he] at h
    exact Nat.lt_irrefl _ h

/-- Going on with more names only adds to the distinct ones. -/
theorem distinct_prefix (names more : List String) :
    distinct names <+: distinct (names ++ more) := by
  induction more using List.reverseRecOn with
  | nil =>
    refine ⟨[], ?_⟩
    rw [List.append_nil, List.append_nil]
  | append_singleton more x ih =>
    rw [← List.append_assoc, distinct_concat]
    split
    · exact ih
    · exact ih.trans (List.prefix_append _ _)

/-! ## Declared names -/

theorem declaredNames_prefix (es g : List Entry) :
    (Log.mk es).declaredNames <+: (Log.mk (es ++ g)).declaredNames := by
  unfold declaredNames
  rw [List.flatMap_append]
  exact distinct_prefix _ _

theorem isDeclared_iff (l : Log) (x : String) :
    l.isDeclared x = true ↔ x ∈ l.entries.flatMap (·.declared) := by
  simp [isDeclared]

/-- The names of the declarations of a log, one declaration after the other. -/
def declarations (l : Log) : List String :=
  (l.entries.filterMap fun e =>
    match e.kind with
    | .declaration names => some names
    | _ => none).flatten

theorem declarations_eq (l : Log) : l.declarations = l.entries.flatMap (·.declared) := by
  unfold declarations
  induction l.entries with
  | nil => rfl
  | cons e es ih =>
    obtain ⟨n, kind, text⟩ := e
    cases kind with
    | declaration names => exact congrArg (names ++ ·) ih
    | _ => exact ih

/-- The declared names of a log are those of its declarations, in the order in which they first
occur there; and they only change at their end. -/
structure ListsNames (l : Log) : Prop where
  nodup : l.declaredNames.Nodup
  mem_iff : ∀ x, x ∈ l.declaredNames ↔ l.isDeclared x = true
  declared_iff : ∀ x, l.isDeclared x = true ↔ x ∈ l.declarations
  inOrder : l.declaredNames.Pairwise fun x y => l.declarations.idxOf x < l.declarations.idxOf y
  append : ∀ e, l.declaredNames <+: (l.append e).declaredNames
  rollback : ∀ w, (l.rollback w).declaredNames <+: l.declaredNames

theorem listsNames (l : Log) : l.ListsNames where
  nodup := nodup_distinct _
  mem_iff x := by
    rw [isDeclared_iff]
    exact mem_distinct _
  declared_iff x := by
    rw [isDeclared_iff, declarations_eq]
  inOrder := by
    rw [declarations_eq]
    exact pairwise_distinct _
  append e := by
    obtain ⟨g, hg, -⟩ := l.append_entries e
    have hprefix := declaredNames_prefix l.entries g
    rwa [← hg] at hprefix
  rollback w := by
    obtain ⟨g, hg, -⟩ := l.exists_taken w
    have hprefix := declaredNames_prefix (l.rollback w).entries g
    rwa [← hg] at hprefix

example :
    let l : Log := ⟨[⟨1, .declaration ["b", "b"], "var b, b int"⟩, ⟨2, .statement, "f(b)"⟩,
      ⟨3, .declaration ["a", "b"], "a, b := 1, 2"⟩]⟩
    l.declaredNames = ["b", "a"] ∧ (l.rollback 3).declaredNames = ["b"] := by decide

end GoRepl.Log
