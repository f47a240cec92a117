import GoRepl.Console.Completion
import Mathlib.Data.String.Basic
import Mathlib.Data.List.DropRight

/-! # What the word before the cursor is completed to

The cursor stands between two characters of a line, and so does the start of the completed word.
The word is the longest run of word characters in front of the cursor.

* `Completion.IsRun`: the longest run of word characters at the end of a text; `isRun_word`.
* `Completion.cutAt?_size`: a text is cut behind any of its characters.
* `Completion.Fits`: what an offer for a cursor has to be.
* `Completion.at?_fits`: the offer fits at every cursor between two characters.
-/

namespace GoRepl.Completion

/-! ## The word before the cursor -/

/-- `run` is the longest run of word characters at the end of `text`. -/
structure IsRun (text run : List Char) : Prop where
  ends : run <:+ text
  isWord : ∀ c ∈ run, isWordChar c = true
  longest : ∀ w, w <:+ text → (∀ c ∈ w, isWordChar c = true) → w <:+ run

theorem isRun_word (text : List Char) : IsRun text (word text) where
  ends := List.rtakeWhile_suffix isWordChar text
  isWord _ hc := List.mem_rtakeWhile_imp hc
  longest w hw hword := by
    obtain ⟨u, rfl⟩ := hw
    have hrev : ∀ c ∈ w.reverse, isWordChar c = true := fun c hc => hword c (List.mem_reverse.mp hc)
    refine ⟨word u, ?_⟩
    rw [word, word, List.reverse_append, List.takeWhile_append_of_pos hrev, List.reverse_append,
      List.reverse_reverse]

theorem eq_append_word (text : List Char) : text = text.rdropWhile isWordChar ++ word text :=
  List.rdropWhile_append_rtakeWhile.symm

/-! ## Cutting at bytes -/

theorem size_eq (cs : List Char) : size cs = String.utf8Len cs := by
  induction cs with
  | nil => rfl
  | cons c cs ih => rw [String.utf8Len_cons, ← ih, Nat.add_comm, size, List.foldr_cons, size]

/-- A text is cut behind any of its characters. -/
theorem cutAt?_size (a b : List Char) : cutAt? (size a) (a ++ b) = some (a, b) := by
  induction a with
  | nil => cases b <;> rfl
  | cons c a ih =>
    have hsize : size (c :: a) = size a + (c.utf8Size - 1) + 1 := by
      have hpos := c.utf8Size_pos
      rw [size, List.foldr_cons, ← size]
      omega
    have hle : c.utf8Size ≤ size (c :: a) := Nat.le_add_right ..
    have hrest : size (c :: a) - c.utf8Size = size a := Nat.add_sub_cancel_left ..
    rw [hsize] at hle hrest ⊢
    rw [List.cons_append, cutAt?, if_pos hle, hrest, ih]
    rfl

/-! ## Offers -/

/-- The texts of a list that `run` may be completed to, in their order. -/
def extensions (run : String) (pool : List String) : List String :=
  pool.filter fun s => run.toList.isPrefixOf s.toList

/-- The run is all of its line but for blank characters in front, and starts with a point. -/
def IsCommand (line run : String) : Prop :=
  Text.trimStart line.toList = run.toList ∧ run.toList.head? = some '.'

/-- What an offer for the cursor before byte `pos` has to be, where `run` ends. -/
structure Fits (names : List String) (line : String) (pos : Nat) (run : String) (offer : Offer) :
    Prop where
  /-- The word starts between two characters, -/
  boundary : String.Pos.Raw.IsValid line ⟨offer.start⟩
  /-- in front of the cursor, -/
  before : offer.start ≤ pos
  /-- and `run` is what stands between the two. -/
  slice : String.Pos.Raw.extract line ⟨offer.start⟩ ⟨pos⟩ = run
  isRun : IsRun (String.Pos.Raw.extract line ⟨0⟩ ⟨pos⟩).toList run.toList
  nothing : run = "" → offer.candidates = []
  commands : run ≠ "" → IsCommand line run → offer.candidates = extensions run Command.controls
  words : run ≠ "" → ¬IsCommand line run → offer.candidates =
    extensions run names ++ extensions run (Keyword.all.map Keyword.spelling)

theorem candidates_of_isCommand (names : List String) {line run : String}
    (h : IsCommand line run) :
    candidates names line.toList run.toList = extensions run Command.controls := by
  have hline : line.toList.dropWhile Text.isBlank = run.toList := h.1
  unfold candidates
  rw [hline, h.2, beq_self_eq_true, beq_self_eq_true, Bool.and_self, if_pos rfl]
  rfl

theorem candidates_of_not_isCommand (names : List String) {line run : String}
    (h : ¬IsCommand line run) : candidates names line.toList run.toList =
      extensions run names ++ extensions run (Keyword.all.map Keyword.spelling) := by
  have hline : ¬(line.toList.dropWhile Text.isBlank == run.toList &&
      run.toList.head? == some '.') = true := by
    intro htrue
    obtain ⟨hl, hr⟩ := (Bool.and_eq_true _ _).mp htrue
    exact h ⟨eq_of_beq hl, eq_of_beq hr⟩
  unfold candidates
  rw [if_neg hline]
  exact List.filter_append ..

theorem size_append (a b : List Char) : size (a ++ b) = size a + size b := by
  rw [size_eq, size_eq, size_eq, String.utf8Len_append]

/-- A cursor between two characters cuts the line into characters. -/
theorem isValid_iff {line : String} {pos : Nat} : String.Pos.Raw.IsValid line ⟨pos⟩ ↔
    ∃ a b, line.toList = a ++ b ∧ pos = size a := by
  rw [String.Pos.Raw.isValid_iff_exists_append]
  constructor
  · rintro ⟨s, t, rfl, hpos⟩
    refine ⟨s.toList, t.toList, String.toList_append, ?_⟩
    rw [size_eq, ← String.utf8ByteSize_ofList, String.ofList_toList]
    exact congrArg String.Pos.Raw.byteIdx hpos
  · rintro ⟨a, b, hline, rfl⟩
    refine ⟨String.ofList a, String.ofList b, ?_, ?_⟩
    · rw [← String.ofList_append, ← hline, String.ofList_toList]
    · rw [String.Pos.Raw.ext_iff, size_eq, ← String.utf8ByteSize_ofList]
      rfl

/-- What stands between two cursors. -/
theorem extract_of_append {line : String} {a b c : List Char} (h : line.toList = a ++ b ++ c) :
    String.Pos.Raw.extract line ⟨size a⟩ ⟨size (a ++ b)⟩ = String.ofList b := by
  have hline : line = String.ofList (a ++ b ++ c) := by rw [← h, String.ofList_toList]
  rw [hline, size_append, size_eq, size_eq]
  exact String.extract_of_valid a b c

/-- At every cursor between two characters of a line there is an offer, and it fits. -/
theorem at?_fits (names : List String) {line : String} {pos : Nat}
    (h : String.Pos.Raw.IsValid line ⟨pos⟩) :
    ∃ run offer, at? names line pos = some offer ∧ Fits names line pos run offer := by
  obtain ⟨before, after, hline, rfl⟩ := isValid_iff.mp h
  -- the line in front of the cursor is some text and the run
  obtain ⟨front, hfront⟩ : ∃ front, before = front ++ word before := ⟨_, eq_append_word before⟩
  have hstart : size before - size (word before) = size front := by
    rw [hfront, size_append, ← hfront, Nat.add_sub_cancel]
  have hat : at? names line (size before) = some
      ⟨size front, if (word before).isEmpty then []
        else candidates names line.toList (word before)⟩ := by
    rw [← hstart, at?, hline, cutAt?_size, ← hline]
    rfl
  have hparts : line.toList = front ++ word before ++ after := by rw [← hfront, hline]
  have hlist : (String.ofList (word before)).toList = word before := String.toList_ofList
  have hne (hrun : String.ofList (word before) ≠ "") : ¬(word before).isEmpty = true := fun he =>
    hrun (String.ofList_eq_empty_iff.mpr (List.isEmpty_iff.mp he))
  refine ⟨String.ofList (word before), _, hat, ?_⟩
  constructor
  · exact isValid_iff.mpr ⟨front, word before ++ after, by rw [hparts, List.append_assoc], rfl⟩
  · rw [hfront, size_append]
    exact Nat.le_add_right ..
  · have hslice := extract_of_append hparts
    rwa [← hfront] at hslice
  · have hslice := extract_of_append (a := []) hline
    rw [List.nil_append] at hslice
    rw [show (0 : Nat) = size [] from rfl, hslice, String.toList_ofList, String.toList_ofList]
    exact isRun_word before
  · intro hrun
    rw [String.ofList_eq_empty_iff.mp hrun]
    rfl
  · intro hrun hcommand
    have hoffered := candidates_of_isCommand names hcommand
    rw [hlist] at hoffered
    exact (if_neg (hne hrun)).trans hoffered
  · intro hrun hcommand
    have hoffered := candidates_of_not_isCommand names hcommand
    rw [hlist] at hoffered
    exact (if_neg (hne hrun)).trans hoffered

/-- The quotation mark in front of the word takes three bytes. -/
theorem at?_fits_quotation :
    String.Pos.Raw.IsValid "s := \u201cab" ⟨10⟩ ∧
      ∃ run, Fits ["abc", "b"] "s := \u201cab" 10 run ⟨8, ["abc"]⟩ := by
  have hvalid : String.Pos.Raw.IsValid "s := \u201cab" ⟨10⟩ :=
    isValid_iff.mpr ⟨"s := \u201cab".toList, [], (List.append_nil _).symm, by decide⟩
  have hat : at? ["abc", "b"] "s := \u201cab" 10 = some ⟨8, ["abc"]⟩ := by decide +kernel
  obtain ⟨run, offer, hoffer, hfits⟩ := at?_fits ["abc", "b"] hvalid
  rw [hat] at hoffer
  cases hoffer
  exact ⟨hvalid, run, hfits⟩

example : at? ["total"] "  .u" 4 = some ⟨2, [".u"]⟩ := by decide +kernel

end GoRepl.Completion
