import GoRepl.Log.Basic
import GoRepl.Program.Layout
import Mathlib.Data.List.DropRight

/-! # Rolling a log back

Appending keeps the entries of a log in the order of their numbers, and a declaration together with
its companion.  Because of the order, rolling back to a number is taking out all entries from that
number on, though it only looks at the end of the log.

* `Log.Built`: the logs that appending and rolling back lead to.
* `Log.rollback_entries`: what rolling back leaves of any log.
* `Log.Ordered`, `Log.Paired`: the two invariants, kept by each step and so by `Log.Built`.
* `Log.Ordered.rollback_eq_filter`: what rolling back leaves of a log in order.
* `Log.RollsBack`, `Log.Built.rollsBack`: the laws of rolling back.
-/

namespace GoRepl

namespace Log

/-- The logs that appending and rolling back lead to.  A companion is never appended by itself. -/
inductive Built : Log → Prop
  | empty : Built {}
  | append {l l' : Log} {e : Entry} (before : Built l) (given : e.kind ≠ .companion)
      (accepted : l.append? e = some l') : Built l'
  | rollback {l : Log} (before : Built l) (w : Nat) : Built (l.rollback w)

variable {l l' : Log} {e : Entry} {w : Nat}

/-! ## What rolling back leaves of any log -/

/-- Whether rolling back to `w` takes the entry off an end of the log. -/
def isFrom (w : Nat) (e : Entry) : Bool := w ≤ e.sequence

theorem rollback_entries (l : Log) (w : Nat) :
    (l.rollback w).entries = l.entries.rdropWhile (isFrom w) := rfl

theorem rollback_prefix (l : Log) (w : Nat) : (l.rollback w).entries <+: l.entries :=
  List.rdropWhile_prefix (isFrom w) l.entries

/-- What is taken off has numbers from `w` on. -/
theorem exists_taken (l : Log) (w : Nat) :
    ∃ g, l.entries = (l.rollback w).entries ++ g ∧ ∀ e ∈ g, w ≤ e.sequence := by
  refine ⟨l.entries.rtakeWhile (isFrom w), ?_, fun e he => ?_⟩
  · rw [rollback_entries, List.rdropWhile_append_rtakeWhile]
  · have hfrom : isFrom w e = true := List.mem_rtakeWhile_imp he
    exact of_decide_eq_true hfrom

/-- Rolling back takes off an end with high numbers and stops at the first low one. -/
theorem rollback_append {es g : List Entry} (hlow : ∀ e ∈ es, e.sequence < w)
    (hhigh : ∀ e ∈ g, w ≤ e.sequence) : (Log.mk (es ++ g)).rollback w = ⟨es⟩ := by
  have hdrop : ((es ++ g).reverse.dropWhile fun e => decide (w ≤ e.sequence)) = es.reverse := by
    rw [List.reverse_append, List.dropWhile_append_of_pos]
    · cases hr : es.reverse with
      | nil => rfl
      | cons e rest =>
        have he : e ∈ es := List.mem_reverse.mp (hr ▸ List.mem_cons_self)
        rw [List.dropWhile_cons_of_neg]
        simpa using hlow e he
    · intro e he
      simpa using hhigh e (List.mem_reverse.mp he)
  rw [rollback, hdrop, List.reverse_reverse]

/-! ## The order of the entries -/

/-- The numbers of the entries never decrease. -/
def Ordered (l : Log) : Prop := l.entries.Pairwise fun a b => a.sequence ≤ b.sequence

theorem append?_eq_some : l.append? e = some l' ↔
    (∀ last ∈ l.entries.getLast?, last.sequence ≤ e.sequence) ∧
      l' = ⟨l.entries ++ e.withCompanion⟩ := by
  have haccepts : l.accepts e = true ↔
      ∀ last ∈ l.entries.getLast?, last.sequence ≤ e.sequence := by
    unfold accepts lastSequence?
    cases l.entries.getLast? with
    | none => simp
    | some last => simp
  rw [append?, ← haccepts]
  by_cases h : l.accepts e = true
  · simp [h, eq_comm]
  · simp [h]

theorem sequence_withCompanion {p : Entry} (h : p ∈ e.withCompanion) : p.sequence = e.sequence := by
  unfold Entry.withCompanion Entry.companion? at h
  split at h
  · rw [List.mem_singleton.mp h]
  · rcases List.mem_cons.mp h with rfl | h
    · rfl
    · rw [List.mem_singleton.mp h]

namespace Ordered

theorem sequence_le_last (h : l.Ordered) {last : Entry} (hl : last ∈ l.entries.getLast?) :
    ∀ p ∈ l.entries, p.sequence ≤ last.sequence := by
  obtain ⟨es, hes⟩ := List.getLast?_eq_some_iff.mp hl
  unfold Ordered at h
  rw [hes, List.pairwise_append] at h
  intro p hp
  rw [hes] at hp
  rcases List.mem_append.mp hp with hp | hp
  · exact h.2.2 p hp last (List.mem_singleton_self last)
  · rw [List.mem_singleton.mp hp]

theorem append (h : l.Ordered) (ha : l.append? e = some l') : l'.Ordered := by
  obtain ⟨hlast, rfl⟩ := append?_eq_some.mp ha
  have hle : ∀ p ∈ l.entries, p.sequence ≤ e.sequence := by
    intro p hp
    have hne := List.ne_nil_of_mem hp
    have hmem : l.entries.getLast hne ∈ l.entries.getLast? := List.getLast?_eq_some_getLast hne
    exact (h.sequence_le_last hmem p hp).trans (hlast _ hmem)
  refine List.pairwise_append.mpr ⟨h, ?_, ?_⟩
  · refine List.pairwise_of_forall_mem_list fun p hp q hq => ?_
    rw [sequence_withCompanion hp, sequence_withCompanion hq]
  · intro p hp q hq
    rw [sequence_withCompanion hq]
    exact hle p hp

theorem rollback (h : l.Ordered) (w : Nat) : (l.rollback w).Ordered :=
  h.sublist (l.rollback_prefix w).sublist

/-- In a log in order nothing behind an entry has a lower number, so the end that is taken off is
all there is from `w` on. -/
theorem rollback_eq_filter (h : l.Ordered) (w : Nat) :
    (l.rollback w).entries = l.entries.filter (·.sequence < w) := by
  obtain ⟨es⟩ := l
  unfold Ordered at h
  rw [rollback_entries]
  induction es using List.reverseRecOn with
  | nil => rfl
  | append_singleton es e ih =>
    obtain ⟨hes, -, hle⟩ := List.pairwise_append.mp h
    by_cases he : w ≤ e.sequence
    · have hdrop : isFrom w e = true := decide_eq_true he
      rw [List.rdropWhile_concat_pos _ _ _ hdrop, List.filter_append,
        List.filter_cons_of_neg (by simpa using he), List.filter_nil, List.append_nil]
      exact ih hes
    · have hkeep : ¬isFrom w e = true := by simpa [isFrom] using he
      rw [List.rdropWhile_concat_neg _ _ _ hkeep, List.filter_eq_self.mpr]
      intro p hp
      have hlt : p.sequence < w := by
        rcases List.mem_append.mp hp with hp | hp
        · exact (hle p hp e (List.mem_singleton_self e)).trans_lt (Nat.lt_of_not_le he)
        · rw [List.mem_singleton.mp hp]
          exact Nat.lt_of_not_le he
      exact decide_eq_true hlt

theorem rollback_rollback (h : l.Ordered) (a b : Nat) :
    (l.rollback a).rollback b = l.rollback (min a b) := by
  have hentries : ((l.rollback a).rollback b).entries = (l.rollback (min a b)).entries := by
    rw [(h.rollback a).rollback_eq_filter, h.rollback_eq_filter, h.rollback_eq_filter,
      List.filter_filter]
    refine List.filter_congr fun e _ => ?_
    rw [← Bool.decide_and, decide_eq_decide, Nat.lt_min, and_comm]
  exact congrArg Log.mk hentries

/-- As many entries are taken off as there are from `w` on. -/
theorem removed_eq (h : l.Ordered) (w : Nat) :
    l.removed w = l.entries.countP fun e => w ≤ e.sequence := by
  have hcount := List.length_eq_countP_add_countP (fun e : Entry => decide (w ≤ e.sequence))
    (l := l.entries)
  have hkept : (l.rollback w).entries.length =
      l.entries.countP fun e => ¬decide (w ≤ e.sequence) = true := by
    rw [h.rollback_eq_filter, ← List.countP_eq_length_filter]
    refine List.countP_congr fun e _ => ?_
    simp
  unfold removed
  omega

/-- Whether an entry is kept is up to its number. -/
theorem lt_length_rollback (h : l.Ordered) {i : Nat} (he : l.entries[i]? = some e) :
    i < (l.rollback w).entries.length ↔ e.sequence < w := by
  obtain ⟨g, hg, hhigh⟩ := l.exists_taken w
  constructor
  · intro hi
    rw [hg, List.getElem?_append_left hi] at he
    have hmem := List.mem_of_getElem? he
    rw [h.rollback_eq_filter, List.mem_filter] at hmem
    exact of_decide_eq_true hmem.2
  · intro hlow
    by_contra hi
    rw [hg, List.getElem?_append_right (Nat.le_of_not_lt hi)] at he
    exact absurd (hhigh e (List.mem_of_getElem? he)) (Nat.not_le.mpr hlow)

end Ordered

/-! ## Declarations and their companions -/

/-- Entries, each with its companion behind it. -/
def Paired (l : Log) : Prop :=
  ∃ es : List Entry, (∀ e ∈ es, e.kind ≠ .companion) ∧ l.entries = es.flatMap Entry.withCompanion

theorem companion?_eq_some {c : Entry} : e.companion? = some c ↔
    e.declared ≠ [] ∧ c = ⟨e.sequence, .companion, Entry.useText e.declared⟩ := by
  unfold Entry.companion?
  by_cases h : e.declared = []
  · simp [h]
  · rw [if_neg (by simpa using h), Option.some.injEq]
    exact ⟨fun hc => ⟨h, hc.symm⟩, fun hc => hc.2.symm⟩

theorem filter_withCompanion (e : Entry) (w : Nat) :
    e.withCompanion.filter (·.sequence < w) = if e.sequence < w then e.withCompanion else [] := by
  split
  · rename_i hlow
    rw [List.filter_eq_self]
    intro p hp
    rw [sequence_withCompanion hp]
    exact decide_eq_true hlow
  · rename_i hhigh
    rw [List.filter_eq_nil_iff]
    intro p hp
    rw [sequence_withCompanion hp]
    simpa using hhigh

/-- Behind an entry that declares names stands its companion. -/
theorem getElem?_companion {es : List Entry} {i : Nat}
    (he : (es.flatMap Entry.withCompanion)[i]? = some e) (hn : e.declared ≠ []) :
    (es.flatMap Entry.withCompanion)[i + 1]? = e.companion? := by
  induction es generalizing i with
  | nil => cases he
  | cons e₀ es ih =>
    rw [List.flatMap_cons, Entry.withCompanion] at he ⊢
    cases hc : e₀.companion? with
    | none =>
      rw [hc] at he
      cases i with
      | zero =>
        cases he
        have hsome := companion?_eq_some.mpr ⟨hn, rfl⟩
        rw [hc] at hsome
        cases hsome
      | succ i => exact ih he
    | some c =>
      rw [hc] at he
      match i with
      | 0 =>
        cases he
        exact hc.symm
      | 1 =>
        cases he
        obtain ⟨-, rfl⟩ := companion?_eq_some.mp hc
        exact absurd rfl hn
      | i + 2 => exact ih he

/-- In front of a companion stands its declaration. -/
theorem getElem?_declaration {es : List Entry} (hes : ∀ e ∈ es, e.kind ≠ .companion) {i : Nat}
    {c : Entry} (hc : (es.flatMap Entry.withCompanion)[i]? = some c) (hk : c.kind = .companion) :
    ∃ j e, i = j + 1 ∧ (es.flatMap Entry.withCompanion)[j]? = some e ∧ e.companion? = some c := by
  induction es generalizing i with
  | nil => cases hc
  | cons e₀ es ih =>
    obtain ⟨he₀, hes⟩ := List.forall_mem_cons.mp hes
    rw [List.flatMap_cons, Entry.withCompanion] at hc ⊢
    cases hcompanion : e₀.companion? with
    | none =>
      rw [hcompanion] at hc
      cases i with
      | zero =>
        cases hc
        exact absurd hk he₀
      | succ i =>
        obtain ⟨j, e, rfl, he, hec⟩ := ih hes hc
        exact ⟨j + 1, e, rfl, he, hec⟩
    | some c₀ =>
      rw [hcompanion] at hc
      match i with
      | 0 =>
        cases hc
        exact absurd hk he₀
      | 1 =>
        cases hc
        exact ⟨0, e₀, rfl, rfl, hcompanion⟩
      | i + 2 =>
        obtain ⟨j, e, rfl, he, hec⟩ := ih hes hc
        exact ⟨j + 2, e, rfl, he, hec⟩

namespace Paired

theorem append (h : l.Paired) (given : e.kind ≠ .companion) (ha : l.append? e = some l') :
    l'.Paired := by
  obtain ⟨-, rfl⟩ := append?_eq_some.mp ha
  obtain ⟨es, hes, hl⟩ := h
  refine ⟨es ++ [e], ?_, ?_⟩
  · exact List.forall_mem_append.mpr ⟨hes, List.forall_mem_singleton.mpr given⟩
  · rw [hl, List.flatMap_append, List.flatMap_singleton]

/-- A companion has the number of its declaration, so both are kept or both are taken off. -/
theorem rollback (h : l.Paired) (ho : l.Ordered) (w : Nat) : (l.rollback w).Paired := by
  obtain ⟨es, hes, hl⟩ := h
  refine ⟨es.filter (·.sequence < w), fun e he => hes e (List.mem_of_mem_filter he), ?_⟩
  rw [ho.rollback_eq_filter, hl, List.filter_flatMap]
  simp only [filter_withCompanion]
  clear hes hl
  induction es with
  | nil => rfl
  | cons e es ih =>
    rw [List.flatMap_cons, ih, List.filter_cons]
    by_cases hlow : e.sequence < w
    · rw [if_pos hlow, if_pos (decide_eq_true hlow), List.flatMap_cons]
    · rw [if_neg hlow, if_neg (by simpa using hlow), List.nil_append]

end Paired

namespace Built

theorem ordered (h : l.Built) : l.Ordered := by
  induction h with
  | empty => exact .nil
  | append before given accepted ih => exact ih.append accepted
  | rollback before w ih => exact ih.rollback w

theorem paired (h : l.Built) : l.Paired := by
  induction h with
  | empty => exact ⟨[], List.forall_mem_nil _, rfl⟩
  | append before given accepted ih => exact ih.append given accepted
  | rollback before w ih => exact ih.rollback before.ordered w

end Built

/-! ## Going on and back -/

theorem append_entries (l : Log) (e : Entry) :
    ∃ g, (l.append e).entries = l.entries ++ g ∧ ∀ p ∈ g, p.sequence = e.sequence := by
  rw [append]
  cases ha : l.append? e with
  | none => exact ⟨[], (List.append_nil _).symm, List.forall_mem_nil _⟩
  | some l' =>
    obtain ⟨-, rfl⟩ := append?_eq_some.mp ha
    exact ⟨e.withCompanion, rfl, fun p hp => sequence_withCompanion hp⟩

/-- Appending entries with numbers from `w` on, some of which may be refused, adds such entries. -/
theorem foldl_append_entries (l : Log) {es : List Entry} (h : ∀ e ∈ es, w ≤ e.sequence) :
    ∃ g, (es.foldl append l).entries = l.entries ++ g ∧ ∀ p ∈ g, w ≤ p.sequence := by
  induction es generalizing l with
  | nil => exact ⟨[], (List.append_nil _).symm, List.forall_mem_nil _⟩
  | cons e es ih =>
    obtain ⟨he, hes⟩ := List.forall_mem_cons.mp h
    obtain ⟨g, hg, hsame⟩ := l.append_entries e
    obtain ⟨g', hg', hhigh⟩ := ih (l.append e) hes
    refine ⟨g ++ g', ?_, ?_⟩
    · rw [List.foldl_cons, hg', hg, List.append_assoc]
    · refine List.forall_mem_append.mpr ⟨fun p hp => ?_, hhigh⟩
      rw [hsame p hp]
      exact he

theorem rollback_foldl_append {es : List Entry} (hlow : ∀ e ∈ l.entries, e.sequence < w)
    (hhigh : ∀ e ∈ es, w ≤ e.sequence) : (es.foldl append l).rollback w = l := by
  obtain ⟨g, hg, hfrom⟩ := l.foldl_append_entries hhigh
  have hl : es.foldl append l = ⟨l.entries ++ g⟩ := congrArg Log.mk hg
  rw [hl]
  exact rollback_append hlow hfrom

/-! ## The laws of rolling back -/

/-- A log is in order, a declaration of names stands together with its companion, and rolling back
takes off all that was entered from some number on. -/
structure RollsBack (l : Log) : Prop where
  ordered : (l.entries.map (·.sequence)).Pairwise (· ≤ ·)
  companion : ∀ i n names text, l.entries[i]? = some ⟨n, .declaration names, text⟩ → names ≠ [] →
    ∃ c, l.entries[i + 1]? = some c ∧ c.kind = .companion ∧ c.sequence = n ∧ c.visible = false ∧
      c.text = "goloopUse(" ++ ", ".intercalate names ++ ")"
  /-- No companion is without its declaration. -/
  declaration : ∀ i c, l.entries[i]? = some c → c.kind = .companion →
    ∃ j e, i = j + 1 ∧ l.entries[j]? = some e ∧ e.declared ≠ [] ∧ e.sequence = c.sequence
  kept : ∀ w, (l.rollback w).entries = l.entries.filter (·.sequence < w)
  front : ∀ w, (l.rollback w).entries <+: l.entries
  removed : ∀ w, l.removed w = l.entries.countP fun e => w ≤ e.sequence
  counted : ∀ w, (l.rollback w).entries.length + l.removed w = l.entries.length
  /-- A declaration of names is kept if and only if its companion is. -/
  together : ∀ w i n names text, l.entries[i]? = some ⟨n, .declaration names, text⟩ → names ≠ [] →
    (i < (l.rollback w).entries.length ↔ i + 1 < (l.rollback w).entries.length)
  twice : ∀ a b, (l.rollback a).rollback b = l.rollback (min a b)
  restored : ∀ (w : Nat) (es : List Entry), (∀ e ∈ l.entries, e.sequence < w) →
    (∀ e ∈ es, w ≤ e.sequence) → (es.foldl append l).rollback w = l ∧
      Program.ofLog ((es.foldl append l).rollback w) = Program.ofLog l

theorem Paired.companion_behind (h : l.Paired) {i : Nat} (he : l.entries[i]? = some e)
    (hn : e.declared ≠ []) :
    l.entries[i + 1]? = some ⟨e.sequence, .companion, Entry.useText e.declared⟩ := by
  obtain ⟨es, -, hl⟩ := h
  rw [hl] at he ⊢
  rw [getElem?_companion he hn]
  exact companion?_eq_some.mpr ⟨hn, rfl⟩

theorem length_add_removed (l : Log) (w : Nat) :
    (l.rollback w).entries.length + l.removed w = l.entries.length := by
  have hle := (l.rollback_prefix w).length_le
  unfold removed
  omega

/-- Every log that was built by appending and rolling back rolls back as said. -/
theorem Built.rollsBack (h : l.Built) : l.RollsBack where
  ordered := List.pairwise_map.mpr h.ordered
  companion i n names text he hn := ⟨_, h.paired.companion_behind he hn, rfl, rfl, rfl, rfl⟩
  declaration i c hc hk := by
    obtain ⟨es, hes, hl⟩ := h.paired
    rw [hl] at hc ⊢
    obtain ⟨j, e, hi, he, hec⟩ := getElem?_declaration hes hc hk
    obtain ⟨hn, rfl⟩ := companion?_eq_some.mp hec
    exact ⟨j, e, hi, he, hn, rfl⟩
  kept := h.ordered.rollback_eq_filter
  front := l.rollback_prefix
  removed := h.ordered.removed_eq
  counted := l.length_add_removed
  together w i n names text he hn := by
    rw [h.ordered.lt_length_rollback he,
      h.ordered.lt_length_rollback (h.paired.companion_behind he hn)]
  twice := h.ordered.rollback_rollback
  restored w es hlow hhigh := by
    have hback := rollback_foldl_append hlow hhigh
    exact ⟨hback, congrArg Program.ofLog hback⟩

theorem rollsBack_declarations :
    let x : Entry := ⟨1, .declaration ["a", "b"], "a, b := 1, 2"⟩
    let y : Entry := ⟨2, .declaration ["c"], "c := 3"⟩
    let l : Log := ⟨x.withCompanion ++ [⟨1, .print, "print(a, b)"⟩] ++ y.withCompanion⟩
    l.Built ∧ l.RollsBack ∧ l.removed 2 = 2 ∧
      (l.rollback 2).entries = x.withCompanion ++ [⟨1, .print, "print(a, b)"⟩] := by
  intro x y l
  have hbuilt : l.Built := .append (e := y) (.append (e := ⟨1, .print, "print(a, b)"⟩)
    (.append (e := x) .empty (by decide) rfl) (by decide) rfl) (by decide) rfl
  have hlaws := hbuilt.rollsBack
  refine ⟨hbuilt, hlaws, ?_, ?_⟩
  · rw [hlaws.removed]
    decide
  · rw [hlaws.kept]
    decide

end Log

end GoRepl
