import GoRepl.Proofs.Token.Nesting

/-! # The words of tokens

The words of a token list are its names and literals as written.  A string directly in the braces
of a struct type is the tag of a field, and no word.

* `Word`, `Kind.word?`: names and literals.
* `Scan`: what decides whether a string is a tag.
* `Scan.words`: the words of token kinds.
* `Scan.Tells`: a stretch of token kinds between brackets, with its words.
-/

namespace GoRepl

/-- A name, or a literal as written. -/
inductive Word where
  | name (text : String)
  | literal (text : String)
  deriving Repr, DecidableEq

namespace Kind

def word? : Kind → Option Word
  | name n => some (.name n)
  | literal _ t => some (.literal t)
  | _ => none

/-- Kinds that are no words and no brackets, and do not start a struct type either. -/
def isSilent : Kind → Bool
  | name _ | literal .. | keyword .structKw => false
  | k => k.depth == 0

end Kind

/-- Whether the last token was the keyword of a struct type, and for each open bracket, the
innermost first, whether it is the brace of a struct type. -/
structure Scan where
  behindStruct : Bool := false
  structs : List Bool := []
  deriving Repr, DecidableEq

namespace Scan

/-- Behind one more token. -/
def next (s : Scan) (k : Kind) : Scan where
  behindStruct := k == .keyword .structKw
  structs :=
    match k with
    | .symbol .lparen | .symbol .lbrack => false :: s.structs
    | .symbol .lbrace => s.behindStruct :: s.structs
    | .symbol .rparen | .symbol .rbrack | .symbol .rbrace => s.structs.tail
    | _ => s.structs

/-- Whether a string here is the tag of a field. -/
def inStruct (s : Scan) : Bool := s.structs.head? == some true

/-- The word that a token is. -/
def word? (s : Scan) : Kind → Option Word
  | .literal .string t => if s.inStruct then none else some (.literal t)
  | k => k.word?

/-- The words of token kinds, in order. -/
def words : Scan → List Kind → List Word
  | _, [] => []
  | s, k :: ks => (s.word? k).toList ++ (s.next k).words ks

variable {s : Scan} {k : Kind} {ks ks' : List Kind}

theorem words_append (s : Scan) (ks ks' : List Kind) :
    s.words (ks ++ ks') = s.words ks ++ (ks.foldl next s).words ks' := by
  induction ks generalizing s with
  | nil => rfl
  | cons k ks ih =>
    rw [List.cons_append, words, words, ih, List.append_assoc]
    rfl

/-- Without struct types each name and each literal is a word. -/
theorem words_eq_filterMap (hks : .keyword .structKw ∉ ks) (hs : s.behindStruct = false)
    (hopen : true ∉ s.structs) : s.words ks = ks.filterMap Kind.word? := by
  induction ks generalizing s with
  | nil => rfl
  | cons k ks ih =>
    obtain ⟨hk, hks⟩ := not_or.mp (mt List.mem_cons.mpr hks)
    have hnext : true ∉ (s.next k).structs := by
      unfold next
      dsimp only
      split
      · simp [hopen]
      · simp [hopen]
      · simp [hopen, hs]
      all_goals first | exact fun h => hopen (List.mem_of_mem_tail h) | exact hopen
    have hbehind : (s.next k).behindStruct = false := by
      simpa [next] using Ne.symm hk
    have hword : s.word? k = k.word? := by
      have hin : s.inStruct = false := by
        simpa [inStruct] using fun h => hopen (List.mem_of_mem_head? h)
      unfold word?
      split
      · simp [hin, Kind.word?]
      · rfl
    rw [words, ih hks hbehind hnext, hword, List.filterMap_cons]
    cases k.word? <;> rfl

theorem next_eof (hs : s.behindStruct = false) : s.next .eof = s := by
  obtain ⟨behindStruct, structs⟩ := s
  cases hs
  rfl

/-! ## Stretches of tokens -/

/-- A scan goes from `s` to `s'` along the kinds, and their words are `ws`. -/
def Tells (s s' : Scan) (ks : List Kind) (ws : List Word) : Prop :=
  ks.foldl next s = s' ∧ s.words ks = ws

namespace Tells

variable {s' s'' : Scan} {o : List Bool} {ws ws' : List Word}

theorem nil : Tells s s [] [] := ⟨rfl, rfl⟩

theorem append (h : Tells s s' ks ws) (h' : Tells s' s'' ks' ws') :
    Tells s s'' (ks ++ ks') (ws ++ ws') := by
  obtain ⟨hrun, hwords⟩ := h
  obtain ⟨hrun', hwords'⟩ := h'
  constructor
  · rw [List.foldl_append, hrun, hrun']
  · rw [words_append, hrun, hwords, hwords']

theorem silent (hk : k.isSilent = true) : Tells ⟨false, o⟩ ⟨false, o⟩ [k] [] := by
  cases k with
  | symbol sym => cases sym <;> first | exact ⟨rfl, rfl⟩ | cases hk
  | keyword w => cases w <;> first | exact ⟨rfl, rfl⟩ | cases hk
  | newline => exact ⟨rfl, rfl⟩
  | eof => exact ⟨rfl, rfl⟩
  | name n => cases hk
  | literal cls t => cases hk

theorem name (n : String) : Tells ⟨false, o⟩ ⟨false, o⟩ [.name n] [.name n] := ⟨rfl, rfl⟩

theorem literal (ho : o.head? ≠ some true) (cls : LiteralClass) (t : String) :
    Tells ⟨false, o⟩ ⟨false, o⟩ [.literal cls t] [.literal t] := by
  refine ⟨rfl, ?_⟩
  cases cls with
  | string => simp [words, word?, inStruct, ho]
  | _ => rfl

theorem tag (ho : o.head? = some true) (t : String) :
    Tells ⟨false, o⟩ ⟨false, o⟩ [.literal .string t] [] := by
  refine ⟨rfl, ?_⟩
  simp [words, word?, inStruct, ho]

theorem opening (b : Bracket) : Tells ⟨false, o⟩ ⟨false, false :: o⟩ [.symbol b.opening] [] := by
  cases b <;> exact ⟨rfl, rfl⟩

theorem closing (b : Bracket) (d : Bool) :
    Tells ⟨false, d :: o⟩ ⟨false, o⟩ [.symbol b.closing] [] := by
  cases b <;> exact ⟨rfl, rfl⟩

theorem structKeyword : Tells ⟨false, o⟩ ⟨true, o⟩ [.keyword .structKw] [] := ⟨rfl, rfl⟩

theorem structBrace : Tells ⟨true, o⟩ ⟨false, true :: o⟩ [.symbol .lbrace] [] := ⟨rfl, rfl⟩

end Tells

end Scan

end GoRepl
