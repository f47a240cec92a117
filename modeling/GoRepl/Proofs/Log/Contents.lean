import GoRepl.Program.Layout

/-! # Logs with the same contents

The listing of a log, its declared names and its program do not depend on the numbers of the
submissions, nor on where the imports stand among the other entries.  If the log has no prints, then
its imports and its body determine them all.

* `Entry.unnumbered`, `Entry.inBody`: entries without their numbers, and those the program runs.
* `Log.SameContents`: two logs with the same imports and the same body.
* `Log.SameContents.listing_eq`, `Log.declaredNames_eq`, `Log.isDeclared_eq`,
  `Log.SameContents.program_eq`: what they have in common.
-/

namespace GoRepl

namespace Entry

/-- The entry without its number. -/
def unnumbered (e : Entry) : Entry := { e with sequence := 0 }

/-- Whether the main function always holds the entry: it is neither an import nor a print. -/
def inBody (e : Entry) : Bool := !e.isImport && !e.isPrint

variable {e p : Entry}

theorem declared_of_not_inBody (h : e.inBody = false) : e.declared = [] := by
  obtain ⟨n, kind, text⟩ := e
  cases kind <;> first | rfl | cases h

theorem not_isImport_of_isPrint (h : e.isPrint = true) : e.isImport = false := by
  obtain ⟨n, kind, text⟩ := e
  cases kind <;> first | rfl | cases h

theorem visible_of_isImport (h : e.isImport = true) : e.visible = true := by
  obtain ⟨n, kind, text⟩ := e
  cases kind <;> first | rfl | cases h

/-- The user sees the imports and some of the body. -/
theorem visible_and_not_isImport : (e.visible && !e.isImport) = (e.visible && e.inBody) := by
  obtain ⟨n, kind, text⟩ := e
  cases kind <;> rfl

theorem map_unnumbered_withCompanion (e : Entry) :
    e.withCompanion.map unnumbered = e.unnumbered.withCompanion := by
  unfold withCompanion companion?
  change _ = _ :: Option.toList (if e.declared.isEmpty then none else _)
  split <;> rfl

/-- A companion is neither an import nor a print, and the user does not see it. -/
theorem kind_of_companion (h : p ∈ e.companion?) :
    p.isImport = false ∧ p.isPrint = false ∧ p.visible = false := by
  unfold companion? at h
  split at h
  · cases h
  · cases h
    exact ⟨rfl, rfl, rfl⟩

theorem filter_visible_withCompanion (h : e.visible = true) :
    e.withCompanion.filter (·.visible) = [e] := by
  have hnil : e.companion?.toList.filter (·.visible) = [] := by
    rw [List.filter_eq_nil_iff]
    intro p hp
    rw [(kind_of_companion (Option.mem_toList.mp hp)).2.2]
    exact Bool.false_ne_true
  rw [withCompanion, List.filter_cons_of_pos h, hnil]

end Entry

namespace Log

open Entry

/-- The imports of the log, without their numbers. -/
def imports (l : Log) : List Entry := (l.entries.filter (·.isImport)).map unnumbered

/-- The body of the log, without its numbers. -/
def body (l : Log) : List Entry := (l.entries.filter (·.inBody)).map unnumbered

/-- `l'` has the imports and the body of `l`. -/
structure SameContents (l l' : Log) : Prop where
  imports : l'.imports = l.imports
  body : l'.body = l.body

/-- The log without its prints. -/
def withoutPrints (l : Log) : Log := ⟨l.entries.filter (!·.isPrint)⟩

theorem isPrint_withoutPrints (l : Log) : ∀ e ∈ l.withoutPrints.entries, e.isPrint = false := by
  intro e he
  simpa using (List.mem_filter.mp he).2

variable {l l' : Log}

/-- Prints are neither imports nor in the body. -/
theorem SameContents.withoutPrints (h : l.SameContents l') : l.withoutPrints.SameContents l' := by
  constructor
  · rw [h.imports, Log.imports, Log.imports, Log.withoutPrints, List.filter_filter]
    refine congrArg _ (List.filter_congr fun e _ => ?_)
    cases hp : e.isPrint with
    | true => rw [not_isImport_of_isPrint hp, Bool.false_and]
    | false => rw [Bool.not_false, Bool.and_true]
  · rw [h.body, Log.body, Log.body, Log.withoutPrints, List.filter_filter]
    refine congrArg _ (List.filter_congr fun e _ => ?_)
    rw [inBody, Bool.and_assoc, Bool.and_self]

/-! ## One submission -/

theorem imports_append (es g : List Entry) :
    (mk (es ++ g)).imports = (mk es).imports ++ (mk g).imports := by
  rw [imports, List.filter_append, List.map_append]
  rfl

theorem body_append (es g : List Entry) : (mk (es ++ g)).body = (mk es).body ++ (mk g).body := by
  rw [body, List.filter_append, List.map_append]
  rfl

section Submission

variable {e : Entry} {shown : List Entry} (hshown : ∀ p ∈ shown, p.isPrint = true)
include hshown

/-- Of an entry with its companion and prints, an import is among the imports, -/
theorem imports_submission : (mk (e.withCompanion ++ shown)).imports =
    if e.isImport then [e.unnumbered] else [] := by
  have hrest : (e.companion?.toList ++ shown).filter (·.isImport) = [] := by
    rw [List.filter_eq_nil_iff]
    intro p hp
    rw [Bool.not_eq_true]
    rcases List.mem_append.mp hp with hp | hp
    · exact (kind_of_companion (Option.mem_toList.mp hp)).1
    · exact not_isImport_of_isPrint (hshown p hp)
  rw [imports, withCompanion, List.cons_append, List.filter_cons, hrest]
  split <;> rfl

/-- and any other entry is in the body, with its companion. -/
theorem body_submission (he : e.isPrint = false) : (mk (e.withCompanion ++ shown)).body =
    if e.isImport then [] else e.unnumbered.withCompanion := by
  have hcompanion : e.companion?.toList.filter (·.inBody) = e.companion?.toList := by
    rw [List.filter_eq_self]
    intro p hp
    obtain ⟨hi, hprint, -⟩ := kind_of_companion (Option.mem_toList.mp hp)
    simp [inBody, hi, hprint]
  have hprints : shown.filter (·.inBody) = [] := by
    rw [List.filter_eq_nil_iff]
    intro p hp
    simp [inBody, hshown p hp]
  rw [body, List.filter_append, hprints, List.append_nil, withCompanion, List.filter_cons,
    hcompanion]
  cases hi : e.isImport with
  | true =>
    have hb : e.inBody = false := by simp [inBody, hi]
    rw [hb, companion?, declared_of_not_inBody hb]
    rfl
  | false =>
    have hb : e.inBody = true := by simp [inBody, hi, he]
    rw [if_pos hb, if_neg Bool.false_ne_true, ← map_unnumbered_withCompanion, withCompanion]

end Submission

/-! ## The listing -/

theorem map_text_listing (l : Log) : l.listing.map (·.text) =
    l.imports.map (·.text) ++ (l.body.filter (·.visible)).map (·.text) := by
  have himports : l.visible.filter (·.isImport) = l.entries.filter (·.isImport) := by
    rw [visible, List.filter_filter]
    refine List.filter_congr fun e _ => ?_
    cases hi : e.isImport with
    | true => rw [visible_of_isImport hi, Bool.and_true]
    | false => rw [Bool.false_and]
  have hbody : l.visible.filter (!·.isImport) =
      (l.entries.filter (·.inBody)).filter (·.visible) := by
    rw [visible, List.filter_filter, List.filter_filter]
    refine List.filter_congr fun e _ => ?_
    rw [Bool.and_comm, visible_and_not_isImport]
  rw [listing, himports, hbody, imports, body, List.filter_map, List.map_append, List.map_map,
    List.map_map]
  rfl

theorem SameContents.listing_eq (h : l.SameContents l') :
    l'.listing.map (·.text) = l.listing.map (·.text) := by
  rw [map_text_listing, map_text_listing, h.imports, h.body]

/-! ## The declared names -/

theorem flatMap_declared (l : Log) :
    l.entries.flatMap (·.declared) = l.body.flatMap (·.declared) := by
  -- imports and prints declare nothing
  rw [body, List.flatMap_map]
  change _ = (l.entries.filter (·.inBody)).flatMap (·.declared)
  induction l.entries with
  | nil => rfl
  | cons e es ih =>
    rw [List.flatMap_cons, ih]
    cases he : e.inBody with
    | true => rw [List.filter_cons_of_pos he, List.flatMap_cons]
    | false =>
      rw [List.filter_cons_of_neg (by simp [he]), declared_of_not_inBody he, List.nil_append]

theorem isDeclared_eq_any (l : Log) (name : String) :
    l.isDeclared name = decide (name ∈ l.body.flatMap (·.declared)) := by
  rw [← flatMap_declared, Bool.eq_iff_iff]
  simp [isDeclared]

variable (h : l'.body = l.body)
include h

theorem declaredNames_eq : l'.declaredNames = l.declaredNames := by
  rw [declaredNames, declaredNames, flatMap_declared l', flatMap_declared l, h]

theorem isDeclared_eq (name : String) : l'.isDeclared name = l.isDeclared name := by
  rw [isDeclared_eq_any, isDeclared_eq_any, h]

end Log

/-! ## The program -/

namespace Layout

theorem flatMap_lines_part (es : List Entry) (f : Entry → Bool) (indent : String) :
    ((es.zipIdx.filter (f ·.1)).map (part indent)).flatMap Part.lines =
      (es.filter f).flatMap fun e => indented indent e.text := by
  have hfst : (es.zipIdx.filter (f ·.1)).map (·.1) = es.filter f := by
    have hmap := List.filter_map (l := es.zipIdx) (f := Prod.fst) (p := f)
    rw [List.zipIdx_map_fst] at hmap
    exact hmap.symm
  rw [← hfst, List.flatMap_map, List.flatMap_map]
  rfl

theorem echo?_eq_none {l : Log} (h : ∀ e ∈ l.entries, e.isPrint = false) : echo? l = none := by
  have hnil : l.entries.zipIdx.filter (·.1.isPrint) = [] := by
    rw [List.filter_eq_nil_iff]
    intro x hx
    rw [h x.1 (List.fst_mem_of_mem_zipIdx hx)]
    exact Bool.false_ne_true
  rw [echo?, newestPrint?, hnil]
  rfl

end Layout

open Layout in
/-- The program of a log without prints is made of its imports and its body. -/
theorem Program.text_ofLog {l : Log} (h : ∀ e ∈ l.entries, e.isPrint = false) :
    (ofLog l).text = Text.unlines (header ++
      l.imports.flatMap (fun e => indented "" e.text) ++ helpers ++
      l.body.flatMap (fun e => indented "\t" e.text) ++ footer) := by
  have hfixed : ∀ ls : List String, (ls.map Part.fixed).flatMap Part.lines = ls := by
    intro ls
    rw [List.flatMap_map]
    exact List.flatMap_singleton' ls
  have himports := flatMap_lines_part l.entries (·.isImport) ""
  have hbody := flatMap_lines_part l.entries (·.inBody) "\t"
  change Text.unlines ((parts l).flatMap Part.lines) = _
  rw [parts, echo?_eq_none h, Log.imports, Log.body, List.flatMap_map, List.flatMap_map]
  simp only [List.flatMap_append, hfixed, Option.toList_none, List.map_nil, List.append_nil,
    himports]
  exact congrArg (fun ls => Text.unlines (header ++ _ ++ helpers ++ ls ++ footer)) hbody

namespace Log.SameContents

variable {l l' : Log}

theorem program_eq (h : l.SameContents l') (hl : ∀ e ∈ l.entries, e.isPrint = false)
    (hl' : ∀ e ∈ l'.entries, e.isPrint = false) :
    (Program.ofLog l').text = (Program.ofLog l).text := by
  rw [Program.text_ofLog hl, Program.text_ofLog hl', h.imports, h.body]

end Log.SameContents

end GoRepl
