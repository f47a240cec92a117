import GoRepl.Proofs.Log.Submission
import GoRepl.Proofs.Program.Placement

/-! # The print of a program

However many prints a log holds, its program runs one at most.  That one comes last, and it belongs
to the latest submission.

* `Log.placedPrints`: the placements of prints in the program of a log.
* `Log.Echoes`: the program prints nothing, or runs one print from behind the first entries.
* `Submissions.echoes`: behind a log that is made of submissions.
-/

namespace GoRepl

namespace Log

/-- Whether the entry with index `i` is a print. -/
def printAt (l : Log) (i : Nat) : Bool := (l.entries[i]?).any (·.isPrint)

/-- The placements of prints in the program of the log. -/
def placedPrints (l : Log) : List Placement :=
  (Program.ofLog l).placements.filter (l.printAt ·.entry)

variable {l : Log}

theorem printAt_of_mem_indices {f : Entry → Bool} (hf : ∀ e, f e = true → e.isPrint = false)
    {i : Nat} (h : i ∈ l.indices f) : l.printAt i = false := by
  obtain ⟨e, he, hfe⟩ := mem_indices.mp h
  rw [printAt, he]
  exact hf e hfe

/-- Imports and the body of the program are no prints. -/
theorem not_printAt_of_mem {i : Nat} (h : i ∈ l.indices (·.isImport) ++
    l.indices fun e => !e.isImport && !e.isPrint) : l.printAt i = false := by
  rcases List.mem_append.mp h with h | h
  · exact printAt_of_mem_indices (fun e he => Layout.not_isPrint_of_isImport he) h
  · refine printAt_of_mem_indices (fun e he => ?_) h
    simpa using (Bool.and_eq_true_iff.mp he).2

theorem lastSequence_of_echo {x : Entry × Nat} (h : Layout.echo? l = some x) :
    l.lastSequence? = some x.1.sequence := by
  unfold Layout.echo? at h
  split at h
  · split at h
    · rename_i hl
      cases h
      exact hl
    · cases h
  · cases h

/-- The program of the log runs no print, or the one that `Layout.echo?` picks, at its end. -/
theorem placedPrints_cases (l : Log) : l.placedPrints = [] ∨
    ∃ q p, l.placedPrints = [q] ∧ (Program.ofLog l).placements.getLast? = some q ∧
      Layout.echo? l = some (p, q.entry) := by
  obtain ⟨inits, lasts, hall, hinits, hlasts⟩ :=
    List.map_eq_append_iff.mp (Program.order_ofLog (l := l))
  have hnone : inits.filter (l.printAt ·.entry) = [] := by
    rw [List.filter_eq_nil_iff]
    intro q hq
    have hmem : q.entry ∈ inits.map (·.entry) := List.mem_map_of_mem hq
    rw [hinits] at hmem
    rw [not_printAt_of_mem hmem]
    exact Bool.false_ne_true
  unfold placedPrints
  rw [hall, List.filter_append, hnone, List.nil_append]
  cases hecho : Layout.echo? l with
  | none =>
    rw [hecho] at hlasts
    rw [List.map_eq_nil_iff.mp hlasts]
    exact .inl rfl
  | some x =>
    rw [hecho] at hlasts
    obtain ⟨q, rfl, hq⟩ := List.map_eq_singleton_iff.mp hlasts
    obtain ⟨hget, hprint⟩ := Layout.echo?_eq_some hecho
    change q.entry = x.2 at hq
    have hp : l.printAt q.entry = true := by
      rw [printAt, hq, hget]
      exact hprint
    refine .inr ⟨q, x.1, ?_, List.getLast?_concat, ?_⟩
    · exact List.filter_cons_of_pos hp
    · rw [hq]

/-- The program of the log runs no print, or just one, which is an entry behind the first `n` and
comes last. -/
def Echoes (l : Log) (n : Nat) : Prop :=
  l.placedPrints = [] ∨ ∃ q p, l.placedPrints = [q] ∧
    (Program.ofLog l).placements.getLast? = some q ∧ n ≤ q.entry ∧
    l.entries[q.entry]? = some p ∧ p.isPrint = true

theorem placedPrints_eq_nil (h : ∀ e ∈ l.entries, e.isPrint = false) : l.placedPrints = [] := by
  unfold placedPrints
  rw [List.filter_eq_nil_iff]
  intro q _
  unfold printAt
  cases he : l.entries[q.entry]? with
  | none => exact Bool.false_ne_true
  | some e =>
    rw [Option.any_some, h e (List.mem_of_getElem? he)]
    exact Bool.false_ne_true

end Log

/-- Behind a log that is made of submissions, only prints of the next one are run. -/
theorem Submissions.echoes {n : Nat} {es g : List Entry} (h : Submissions n es) (hne : g ≠ [])
    (hg : ∀ e ∈ g, e.sequence = n + 1) : (Log.mk (es ++ g)).Echoes es.length := by
  rcases (Log.mk (es ++ g)).placedPrints_cases with hnil | ⟨q, p, hone, hlast, hecho⟩
  · exact .inl hnil
  obtain ⟨hget, hprint⟩ := Layout.echo?_eq_some hecho
  have hseq : p.sequence = n + 1 := by
    have hp := Log.lastSequence_of_echo hecho
    have hend : (Log.mk (es ++ g)).lastSequence? = some (n + 1) := by
      rw [Log.lastSequence?, List.getLast?_append, List.getLast?_eq_some_getLast hne]
      exact congrArg some (hg _ (List.getLast_mem hne))
    exact Option.some.inj (hp.symm.trans hend)
  refine .inr ⟨q, p, hone, hlast, ?_, hget, hprint⟩
  -- an entry of the log before has a lower number
  by_contra hlt
  have hmem : p ∈ es := by
    rw [List.getElem?_append_left (Nat.lt_of_not_le hlt)] at hget
    exact List.mem_of_getElem? hget
  have := h.sequence_le hmem
  omega

end GoRepl
