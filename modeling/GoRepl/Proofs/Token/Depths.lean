import GoRepl.Proofs.Token.Nesting

/-! # Kinds outside all brackets

* `depths`: token kinds, each with the number of brackets that are open before it.
* `Nested.le_depths`: nested kinds close no bracket that was opened before them.
* `Without`: nested kinds of which none outside all brackets has some property.
-/

namespace GoRepl

/-- The kinds, each with the number of brackets that are open before it. -/
def depths : Int → List Kind → List (Kind × Int)
  | _, [] => []
  | d, k :: ks => (k, d) :: depths (d + k.depth) ks

variable {p : Kind → Bool} {ks ks' : List Kind} {k : Kind}

theorem depths_append (d : Int) (ks ks' : List Kind) :
    depths d (ks ++ ks') = depths d ks ++ depths (d + (ks.map Kind.depth).sum) ks' := by
  induction ks generalizing d with
  | nil => simp [depths]
  | cons k ks ih => simp [depths, ih, Int.add_assoc]

theorem depths_add (d e : Int) (ks : List Kind) :
    depths (d + e) ks = (depths d ks).map fun m => (m.1, m.2 + e) := by
  induction ks generalizing d with
  | nil => rfl
  | cons k ks ih =>
    rw [depths, depths, List.map_cons, ← ih, Int.add_right_comm]

theorem map_fst_depths (d : Int) (ks : List Kind) : (depths d ks).map Prod.fst = ks := by
  induction ks generalizing d with
  | nil => rfl
  | cons k ks ih => rw [depths, List.map_cons, ih]

/-- Where no bracket stands, the number of open ones stays. -/
theorem eq_of_mem_depths (h : ∀ k ∈ ks, k.depth = 0) (d : Int) : ∀ m ∈ depths d ks, m.2 = d := by
  induction ks with
  | nil => exact nofun
  | cons k ks ih =>
    obtain ⟨hk, hks⟩ := List.forall_mem_cons.mp h
    rw [depths, hk, Int.add_zero]
    exact List.forall_mem_cons.mpr ⟨rfl, ih hks⟩

namespace Nested

theorem depths_append (h : Nested ks) (d : Int) (ks' : List Kind) :
    depths d (ks ++ ks') = depths d ks ++ depths d ks' := by
  rw [GoRepl.depths_append, h.depth_eq_zero, Int.add_zero]

theorem le_depths (h : Nested ks) (d : Int) : ∀ m ∈ depths d ks, d ≤ m.2 := by
  induction h generalizing d with
  | nil => exact nofun
  | other plain _ ih =>
    rw [depths, plain, Int.add_zero]
    exact List.forall_mem_cons.mpr ⟨Int.le_refl d, ih d⟩
  | pair b between _ ihi ihr =>
    rw [depths, b.depth_opening, between.depths_append, depths, b.depth_closing]
    refine List.forall_mem_cons.mpr ⟨Int.le_refl d, List.forall_mem_append.mpr ⟨?_, ?_⟩⟩
    · intro m hm
      have hinner := ihi (d + 1) m hm
      omega
    · refine List.forall_mem_cons.mpr ⟨by omega, ?_⟩
      rw [Int.add_neg_cancel_right]
      exact ihr d

end Nested

/-- Nested kinds of which none outside all brackets has the property. -/
def Without (p : Kind → Bool) (ks : List Kind) : Prop :=
  Nested ks ∧ ∀ m ∈ depths 0 ks, m.2 = 0 → p m.1 = false

namespace Without

theorem nil : Without p [] := ⟨.nil, nofun⟩

theorem append (h : Without p ks) (h' : Without p ks') : Without p (ks ++ ks') := by
  refine ⟨h.1.append h'.1, ?_⟩
  rw [h.1.depths_append]
  exact List.forall_mem_append.mpr ⟨h.2, h'.2⟩

theorem single (hd : k.depth = 0) (hp : p k = false) : Without p [k] :=
  ⟨.other hd .nil, List.forall_mem_singleton.mpr fun _ => hp⟩

theorem cons (hd : k.depth = 0) (hp : p k = false) (h : Without p ks) : Without p (k :: ks) :=
  append (single hd hp) h

theorem of_forall (h : ∀ k ∈ ks, k.depth = 0 ∧ p k = false) : Without p ks := by
  induction ks with
  | nil => exact nil
  | cons k ks ih =>
    obtain ⟨⟨hd, hp⟩, hks⟩ := List.forall_mem_cons.mp h
    exact cons hd hp (ih hks)

theorem mono {q : Kind → Bool} (h : Without q ks) (hpq : ∀ k, p k = true → q k = true) :
    Without p ks := by
  refine ⟨h.1, fun m hm hzero => ?_⟩
  cases hp : p m.1 with
  | false => rfl
  | true => exact (hpq _ hp).symm.trans (h.2 m hm hzero)

/-- The property is looked for inside `d` brackets. -/
theorem at_depth (h : Without p ks) (d : Int) : ∀ m ∈ depths d ks, m.2 = d → p m.1 = false := by
  have hshift := depths_add 0 d ks
  rw [Int.zero_add] at hshift
  rw [hshift]
  intro m hm hd
  obtain ⟨m', hm', rfl⟩ := List.mem_map.mp hm
  exact h.2 m' hm' (by simpa using hd)

end Without

end GoRepl
