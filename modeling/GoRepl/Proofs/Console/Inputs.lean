import GoRepl.Proofs.Console.Restoration

/-! # Lines of input and lines of a transcript

A console collects its lines as a transcript is read: the inputs that it gives to its session are
the fragments of a file with these lines.  Only what is not complete at the end is a fragment of the
file, and stays with the console.

* `Framing.Among`: texts with their lines in order among other lines, which are blank.
* `Framing.group_among`: what lines are grouped into.
* `Console.Dispatched`: a console that gave its session some inputs.
* `Console.feedAll_group`: the loop groups its lines.
* `Console.inputs_of_lines`: the inputs of a console and the fragments of a file.
-/

namespace GoRepl

open Text

namespace Framing

/-- The lines of a text, an empty last one included. -/
def allLines (text : String) : List String := (text.toList.splitOn '\n').map String.ofList

/-- The lines `ls` are those of the texts `fs`, one text after another, and blank lines between
them.  No text begins with a blank line. -/
inductive Among : List String → List String → Prop
  | nil : Among [] []
  | blank {fs ls : List String} {line : String} (h : isBlankText line = true) (rest : Among fs ls) :
      Among fs (line :: ls)
  | text {fs ls : List String} {f : String} (h : Opens f) (rest : Among fs ls) :
      Among (f :: fs) (allLines f ++ ls)

/-- The complete texts that lines were grouped into, and the one that is not complete. -/
def texts (grouped : List String × String) : List String :=
  if grouped.2.isEmpty then grouped.1 else grouped.1 ++ [grouped.2]

variable {text line pending : String} {ls : List String}

theorem allLines_line (hl : IsLine line) : allLines line = [line] := by
  have hsplit : line.toList.splitOn '\n' = [line.toList] :=
    List.splitOnP_eq_singleton fun c hc => beq_false_of_ne fun he => hl.1 (he ▸ hc)
  rw [allLines, hsplit, List.map_singleton, String.ofList_toList]

theorem allLines_extend (h : pending ≠ "") (hl : IsLine line) :
    allLines (extend pending line) = allLines pending ++ [line] := by
  rw [← allLines_line hl, allLines, toList_extend h, List.splitOn,
    List.splitOnP_append_cons _ _ (by rfl), List.map_append]
  rfl

theorem texts_of_eq {grouped : List String × String} (h : grouped.2 = "") :
    texts grouped = grouped.1 := by
  rw [texts, if_pos (by simpa using h)]

theorem texts_of_ne {grouped : List String × String} (h : grouped.2 ≠ "") :
    texts grouped = grouped.1 ++ [grouped.2] := by
  rw [texts, if_neg (by simpa using h)]

theorem texts_cons (f : String) (grouped : List String × String) :
    texts (f :: grouped.1, grouped.2) = f :: texts grouped := by
  unfold texts
  split <;> rfl

/-- The lines of what lines are grouped into are these, but for blank ones. -/
theorem group_among (hls : ∀ l ∈ ls, IsLine l) :
    Among (texts (group "" ls)) ls ∧
      ∀ pending, Opens pending → Among (texts (group pending ls)) (allLines pending ++ ls) := by
  induction ls with
  | nil =>
    refine ⟨.nil, fun pending h => ?_⟩
    rw [group, texts_of_ne h.ne_empty]
    exact .text h .nil
  | cons l ls ih =>
    obtain ⟨hl, hls⟩ := List.forall_mem_cons.mp hls
    obtain ⟨hnew, hopen⟩ := ih hls
    -- a text that is complete is followed by new ones
    have hgo {text : String} (h : Opens text) : Among (texts (if needsMore text then group text ls
        else (text :: (group "" ls).1, (group "" ls).2))) (allLines text ++ ls) := by
      split
      · exact hopen text h
      · rw [texts_cons]
        exact .text h hnew
    constructor
    · cases hb : isBlankText l with
      | true =>
        rw [group, hb]
        exact .blank hb hnew
      | false =>
        have htext := hgo (hl.opens hb)
        rw [allLines_line hl] at htext
        rw [group_line (by rw [hb, Bool.and_false])]
        exact htext
    · intro pending h
      have hskip : (pending.isEmpty && isBlankText l) = false := by
        rw [String.isEmpty_eq_false_iff.mpr h.ne_empty, Bool.false_and]
      have htext := hgo (h.extend l)
      rw [allLines_extend h.ne_empty hl, List.append_assoc, List.singleton_append] at htext
      rw [group_line hskip]
      exact htext

end Framing

/-- The turns that inputs take in a session, one after another. -/
def Session.turns (s : Session) (c : Toolchain) : List String → List (Turn Session.Reply)
  | [] => []
  | input :: inputs =>
    let t := s.dispatch c input
    t :: t.session.turns c inputs

/-- The session behind inputs. -/
def Session.behind (s : Session) (c : Toolchain) (inputs : List String) : Session :=
  inputs.foldl (fun s input => (s.dispatch c input).session) s

theorem Session.turns_append (s : Session) (c : Toolchain) (inputs inputs' : List String) :
    s.turns c (inputs ++ inputs') = s.turns c inputs ++ (s.behind c inputs).turns c inputs' := by
  induction inputs generalizing s with
  | nil => rfl
  | cons input inputs ih => exact congrArg (s.dispatch c input :: ·) (ih _)

/-- The reply that a message is. -/
def Message.reply? : Message → Option Session.Reply
  | prompt _ => none
  | reply r => some r

namespace Console

open Framing

variable {c : Toolchain} {k k₁ k₂ : Console} {ls inputs inputs' : List String}

/-- What the session has replied so far. -/
def replies (k : Console) : List Session.Reply := k.messages.filterMap Message.reply?

/-- The console `k₁` is `k` after it gave its session the inputs, one after another, and nothing
else: it shows the replies, it took the builds, and its session is the one behind them. -/
structure Dispatched (c : Toolchain) (k : Console) (inputs : List String) (k₁ : Console) :
    Prop where
  entered : k₁.entered = k.entered ++ inputs
  session : k₁.session = k.session.behind c inputs
  replies : k₁.replies = k.replies ++ (k.session.turns c inputs).map (·.value)
  builds : k₁.builds = k.builds ++ (k.session.turns c inputs).flatMap (·.build.toList)

namespace Dispatched

theorem trans (h : Dispatched c k inputs k₁) (h' : Dispatched c k₁ inputs' k₂) :
    Dispatched c k (inputs ++ inputs') k₂ where
  entered := by rw [h'.entered, h.entered, List.append_assoc]
  session := by rw [h'.session, h.session, Session.behind, Session.behind, Session.behind,
    List.foldl_append]
  replies := by rw [h'.replies, h.replies, h.session, Session.turns_append, List.map_append,
    List.append_assoc]
  builds := by rw [h'.builds, h.builds, h.session, Session.turns_append, List.flatMap_append,
    List.append_assoc]

theorem wait (k : Console) (pending : String) : Dispatched c k [] { k with pending } where
  entered := (List.append_nil _).symm
  session := rfl
  replies := (List.append_nil _).symm
  builds := (List.append_nil _).symm

theorem ask (k : Console) : Dispatched c k [] k.ask where
  entered := (List.append_nil _).symm
  session := rfl
  replies := by
    rw [Console.replies, Console.ask, List.filterMap_append]
    rfl
  builds := (List.append_nil _).symm

theorem enter (k : Console) (input : String) : Dispatched c k [input] (k.enter c input) where
  entered := rfl
  session := rfl
  replies := by
    rw [Console.replies, Console.enter, List.filterMap_append]
    rfl
  builds := congrArg (k.builds ++ ·) (List.append_nil _).symm

end Dispatched

/-- The inputs that a line makes up, and what it leaves pending, are what grouping makes of it. -/
theorem feed_group (c : Toolchain) (k : Console) (l : String) (ls : List String) :
    ∃ inputs, Dispatched c k inputs (k.feed c l) ∧
      group k.pending (l :: ls) =
        (inputs ++ (group (k.feed c l).pending ls).1, (group (k.feed c l).pending ls).2) := by
  unfold feed
  dsimp only
  split
  · rename_i hskip
    obtain ⟨hempty, -⟩ := Bool.and_eq_true_iff.mp hskip
    refine ⟨[], .wait k k.pending, ?_⟩
    rw [group, if_pos hskip, String.isEmpty_iff.mp hempty]
    rfl
  · rename_i hskip
    rw [group_line (Bool.eq_false_iff.mpr hskip)]
    split
    · exact ⟨[], .wait k _, rfl⟩
    · refine ⟨[extend k.pending l], .enter k _, ?_⟩
      rw [enter_pending]
      rfl

/-- Unless the user leaves, the loop groups its lines and gives the texts to the session. -/
theorem feedAll_group (h : (feedAll c k (ls.map .ok)).2 ≠ .quit) :
    (feedAll c k (ls.map .ok)).2 = .endOfInput ∧
      Dispatched c k (group k.pending ls).1 (feedAll c k (ls.map .ok)).1 ∧
      (feedAll c k (ls.map .ok)).1.pending = (group k.pending ls).2 := by
  induction ls generalizing k with
  | nil => exact ⟨rfl, .ask k, rfl⟩
  | cons l ls ih =>
    obtain ⟨inputs, hfed, hgroup⟩ := feed_group c k.ask l ls
    rw [List.map_cons, feedAll] at h ⊢
    split at h
    · exact absurd rfl h
    · rename_i hopen
      obtain ⟨hending, hbehind, hpending⟩ := ih h
      have hgroup : group k.pending (l :: ls) = _ := hgroup
      rw [if_neg hopen, hgroup]
      exact ⟨hending, (Dispatched.ask k).trans (hfed.trans hbehind), hpending⟩

/-! ## Inputs and fragments -/

/-- Lines that a console reads until they end and the lines of a file are framed alike.  The inputs
that the session handles are the fragments of the file; but if the last fragment is not complete,
then it is what the console still has pending.  Each input is complete and goes on with each of its line feeds, and the lines of
the fragments are these lines, but for blank ones between them. -/
theorem inputs_of_lines {t : Tree} {path text : String} (hls : ∀ l ∈ ls, IsLine l)
    (hk : k.pending = "") (hstays : (feedAll c k (ls.map .ok)).2 ≠ .quit)
    (hfile : t.readText [] path = .ok text) (hlines : Text.lines text = ls) :
    let k' := (feedAll c k (ls.map .ok)).1
    ∃ inputs fs, Dispatched c k inputs k' ∧ Transcript.load t path = .ok fs ∧
      (feedAll c k (ls.map .ok)).2 = .endOfInput ∧
      ((∀ f ∈ fs.getLast?, needsMore f = false) → inputs = fs ∧ k'.pending = "") ∧
      (∀ f ∈ fs.getLast?, needsMore f = true → inputs = fs.dropLast ∧ k'.pending = f) ∧
      (∀ input ∈ inputs, needsMore input = false ∧ Framed input) ∧ Among fs ls := by
  intro k'
  obtain ⟨hending, hdispatched, hpending⟩ := feedAll_group hstays
  rw [hk] at hdispatched hpending
  obtain ⟨hcollected, hwaiting⟩ := group_collected .nothing hls
  obtain ⟨hcomplete, -⟩ := group_opens (.inl rfl) hls
  have hload : Transcript.load t path = .ok (texts (group "" ls)) := by
    rw [Transcript.load, hfile, ← hlines]
    rfl
  have hinputs : ∀ input ∈ (group "" ls).1, needsMore input = false ∧ Framed input :=
    fun input hi => ⟨(hcomplete input hi).2, (hcollected input hi).framed⟩
  refine ⟨_, _, hdispatched, hload, hending, ?_⟩
  rw [← and_assoc]
  refine ⟨?_, hinputs, (group_among hls).1⟩
  obtain hrest | ⟨-, hmore⟩ := hwaiting
  · rw [texts_of_eq hrest]
    refine ⟨fun _ => ⟨rfl, hpending.trans hrest⟩, fun f hf hmore => ?_⟩
    have hf := (hinputs f (List.mem_of_getLast? hf)).1
    rw [hmore] at hf
    cases hf
  · rw [texts_of_ne (ne_empty_of_needsMore hmore), List.getLast?_concat, List.dropLast_concat]
    constructor
    · intro hlast
      rw [hlast _ rfl] at hmore
      cases hmore
    · rintro f hf -
      exact ⟨rfl, hpending.trans (Option.mem_some_iff.mp hf)⟩

theorem inputs_of_lines_call :
    let k : Console := { session := Session.inRoot "demo" }
    let t : Tree := ⟨[(["demo.changes"], .file "\nf(\n \n1))\n\n(\x60\n".toUTF8)]⟩
    let ls := ["", "f(", " ", "1))", "", "(\x60"]
    let k' := (feedAll .silent k (ls.map .ok)).1
    k'.entered = ["f(\n \n1))"] ∧
      k'.session = (k.session.dispatch .silent "f(\n \n1))").session ∧ k'.pending = "(\x60" ∧
      Transcript.load t "/demo.changes" = .ok ["f(\n \n1))", "(\x60"] := by
  intro k t ls k'
  have hls : ∀ l ∈ ls, IsLine l := by
    have hn : ∀ l ∈ ls, '\n' ∉ l.toList := by decide +kernel
    have hr : ∀ l ∈ ls, '\r' ∉ l.toList := by decide +kernel
    exact fun l hl => ⟨hn l hl, hr l hl⟩
  have hfile : t.readText [] "/demo.changes" = .ok "\nf(\n \n1))\n\n(\x60\n" := by
    simp only [Tree.readText, Tree.read, Tree.node, Tree.resolve, String.contains_char_eq]
    decide +kernel
  have hstays : (feedAll .silent k (ls.map .ok)).2 ≠ .quit := by decide +kernel
  have hfs : Transcript.load t "/demo.changes" = .ok ["f(\n \n1))", "(\x60"] := by
    rw [Transcript.load, hfile]
    exact congrArg Except.ok (by decide +kernel)
  obtain ⟨inputs, fs, hdispatched, hload, -, -, hlast, -⟩ :=
    inputs_of_lines hls rfl hstays hfile (by decide +kernel)
  cases hload.symm.trans hfs
  obtain ⟨hinputs, hpending⟩ := hlast "(\x60" rfl (by decide +kernel)
  rw [hinputs] at hdispatched
  exact ⟨hdispatched.entered, hdispatched.session, hpending, hfs⟩

end Console

end GoRepl
