import GoRepl.Proofs.Syntax.Advance
import GoRepl.Proofs.Syntax.Levels

/-! # The calls of a run

A reader of the grammar calls the readers of other phrases, and stops at once when one of them does.
So the calls that it makes are seen from outside: whatever fault a call had, the run would stop with
it.  From the entry points on, no phrase is read below its level.

* `Call`, `Calls`: a phrase that is read at a state, and the calls in the run of a reader.
* `TokenStream.Called`: the calls in the runs of the entry points.
* `Avoids`, `Composed.avoids`, `read_avoids`: readers that do not find a fault in front of their
  tokens.
* `TokenStream.Called.floor_le`: the level of each call.
-/

namespace GoRepl.Syntax

open Read Grammar

variable {rec : Phrases} {l : Int} {α β : Type}

/-- A phrase that is read at some state. -/
structure Call where
  {result : Type}
  phrase : Phrase result
  state : ReadState

/-- What the readers `rec` give for a call. -/
def Phrases.answer (rec : Phrases) (c : Call) : Except ReadFault (c.result × ReadState) :=
  rec c.phrase c.state

/-- In its run from `s` over the readers `rec`, the reader `p` makes the call `c`: whatever fault
the call had, the run would stop with it.  (No reader of the grammar goes on behind a fault.) -/
def Calls (p : Phrases → Read α) (rec : Phrases) (s : ReadState) (c : Call) : Prop :=
  ∀ e, ∃ rec' : Phrases, rec'.answer c = .error e ∧
    (∀ c', c' ≠ c → rec'.answer c' = rec.answer c') ∧ p rec' s = .error e

/-- A call is made if its faults are those of the run. -/
theorem Calls.of_stops {p : Phrases → Read α} {s : ReadState} {c : Call}
    (h : ∀ (e : ReadFault) (rec' : Phrases), rec'.answer c = .error e →
      (∀ c', c' ≠ c → rec'.answer c' = rec.answer c') → p rec' s = .error e) :
    Calls p rec s c := by
  classical
  intro e
  let rec' : Phrases := fun ph t => if (⟨ph, t⟩ : Call) = c then .error e else rec ph t
  have hstop : rec'.answer c = .error e := if_pos rfl
  have hsame (c' : Call) (hc : c' ≠ c) : rec'.answer c' = rec.answer c' := if_neg hc
  exact ⟨rec', hstop, hsame, h e rec' hstop hsame⟩

/-- The calls in the runs of the entry points on the stream `s`, each with the bound on the depth to
which it may nest.  Imports call no phrases. -/
inductive TokenStream.Called (s : TokenStream) : Nat → Call → Prop
  | fragment : s.Called (s.tokens.length + 1) ⟨.stmt, { tokens := s.tokens }⟩
  | expression : s.Called (s.tokens.length + 1) ⟨.binary 1, { tokens := s.tokens }⟩
  | inner {depth : Nat} {c c' : Call} (outer : s.Called (depth + 1) c)
      (calls : Calls (fun rec => c.phrase.step rec) (Phrase.read depth) c.state c') :
      s.Called depth c'

/-! ## The level of each call -/

/-- From level `l` on, `p` goes forward, keeps the level, and has no fault `e` in front of its
tokens. -/
def Avoids (e : ReadFault) (p : Read α) (l : Int) : Prop :=
  ∀ s, l ≤ s.level → s.tokens.length < e.rest.length →
    p s ≠ .error e ∧ ∀ a s', p s = .ok (a, s') →
      s'.level = s.level ∧ s'.tokens.length ≤ s.tokens.length

theorem Avoids.of_ok {e : ReadFault} {p : Read α} (h : ∀ s, ∃ a s', p s = .ok (a, s') ∧
    s'.level = s.level ∧ s'.tokens.length ≤ s.tokens.length) : Avoids e p l := by
  intro s _ _
  obtain ⟨a, s', hok, hs'⟩ := h s
  rw [hok]
  refine ⟨nofun, fun b s₁ heq => ?_⟩
  cases heq
  exact hs'

/-- What is composed of such readers is such a reader, each of them from its level on. -/
theorem Composed.avoids {e : ReadFault} {p : Read α} (hp : Composed rec p l)
    (h : ∀ {β : Type} (ph : Phrase β), Avoids e (rec ph) ph.floor) : Avoids e p l := by
  induction hp with
  | of_pure a => exact .of_ok fun s => ⟨a, s, rfl, rfl, Nat.le_refl _⟩
  | fail f =>
    intro s _ hlen
    refine ⟨?_, nofun⟩
    rintro ⟨⟩
    exact absurd hlen (Nat.lt_irrefl _)
  | peek | peekSecond | level => exact .of_ok fun s => ⟨_, s, rfl, rfl, Nat.le_refl _⟩
  | skip =>
    exact .of_ok fun s => ⟨(), _, rfl, rfl, by rw [List.length_tail]; exact Nat.sub_le _ _⟩
  | @bind l α β p f hp hf ihp ihf =>
    intro s hl hlen
    obtain ⟨hne, hok⟩ := ihp s hl hlen
    -- the second reader starts at the same level, and no further from the end
    have hnext {a s₁} (ha : p s = .ok (a, s₁)) := ihf a s₁ ((hok a s₁ ha).1 ▸ hl)
      (Nat.lt_of_le_of_lt (hok a s₁ ha).2 hlen)
    constructor
    · intro he
      obtain hp | ⟨a, s₁, ha, hb⟩ := bind_eq_error.mp he
      · exact hne hp
      · exact (hnext ha).1 hb
    · intro b s' hb
      obtain ⟨a, s₁, ha, hb⟩ := bind_eq_ok.mp hb
      obtain ⟨hlevel, hlength⟩ := (hnext ha).2 b s' hb
      exact ⟨hlevel.trans (hok a s₁ ha).1, Nat.le_trans hlength (hok a s₁ ha).2⟩
  | nested hp ih =>
    intro s hl hlen
    obtain ⟨hne, hok⟩ := ih { s with level := s.level + 1 } (Int.add_le_add_right hl 1) hlen
    refine ⟨fun he => hne (nested_eq_error.mp he), fun a s' hs => ?_⟩
    obtain ⟨s₁, ha, rfl⟩ := nested_eq_ok.mp hs
    obtain ⟨hlevel, hlength⟩ := hok a s₁ ha
    exact ⟨Int.sub_eq_iff_eq_add.mpr hlevel, hlength⟩
  | header hp ih =>
    intro s hl hlen
    obtain ⟨hne, hok⟩ := ih { s with level := -1 } (Int.le_refl _) hlen
    refine ⟨fun he => hne (header_eq_error.mp he), fun a s' hs => ?_⟩
    obtain ⟨s₁, ha, rfl⟩ := header_eq_ok.mp hs
    exact ⟨rfl, (hok a s₁ ha).2⟩
  | phrase ph => exact h ph
  | lift hp ih => exact fun s hl hlen => ih s (by omega) hlen

/-- A reader that goes forward and keeps the level, and whose faults are therefore found no further
in front. -/
theorem read_avoids (depth : Nat) (ph : Phrase α) (e : ReadFault) (l : Int) :
    Avoids e (Phrase.read depth ph) l := by
  intro s _ hlen
  have hadvances := read_advance depth ph
  refine ⟨fun he => ?_, fun a s' ha => ?_⟩
  · exact Nat.not_le_of_lt hlen (hadvances.stops he).length_le
  · exact ⟨read_keepsLevel depth ph s a s' ha, (hadvances.leaves ha).length_le⟩

/-- No phrase is read below its level. -/
theorem TokenStream.Called.floor_le {s : TokenStream} {depth : Nat} {c : Call}
    (h : s.Called depth c) : c.phrase.floor ≤ c.state.level := by
  induction h with
  | fragment => exact Int.le_refl 0
  | expression => exact Int.negSucc_le_zero 0
  | @inner depth c c' outer calls ih =>
    refine Int.not_lt.mp fun hlow => ?_
    -- a fault of the call that is found in front of all tokens is no fault of another reader
    let e : ReadFault := ⟨.tooDeep, default :: c.state.tokens⟩
    obtain ⟨rec', -, hsame, hrun⟩ := calls e
    have havoids : ∀ {β : Type} (ph : Phrase β), Avoids e (rec' ph) ph.floor := by
      intro β ph t ht
      have hne : (⟨ph, t⟩ : Call) ≠ c' := by
        rintro rfl
        exact Int.not_lt.mpr ht hlow
      have hread : rec' ph t = Phrase.read depth ph t := hsame ⟨ph, t⟩ hne
      rw [hread]
      exact read_avoids depth ph e ph.floor t ht
    exact ((step_composed c.phrase).avoids havoids c.state ih (Nat.lt_succ_self _)).1 hrun

end GoRepl.Syntax
