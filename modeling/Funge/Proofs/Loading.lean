import Funge.Playfield.Source
import Funge.Proofs.Blank
import Funge.Proofs.Utf8

/-!
Texts and playfields. A text consists of lines with a line end and of a last line without one,
which may be empty. Both ways to load it make one row of every line and differ only where the last
line is empty. Rows made of lines are printed as lines that make the same rows, so a playfield
that was loaded once is loaded again from what it prints.
-/

namespace Funge

/-- A file that holds a text. -/
def Document.holding (source : String) : Document := .bytes (Text.Utf8.encode source).toList

namespace Playfield

theorem load_holding (name source : String) :
    load name (.holding source) = .ok (ofLines source) := by
  simp only [load, Document.holding, Document.content, Text.Utf8.decode?_encode]

/-- Where a carriage return stands before the line end, the row has no trace of it. -/
theorem ofLine_withoutReturn (line : List Char) : ofLine (withoutReturn line) = ofLine line := by
  unfold withoutReturn
  split
  · next hreturn =>
    obtain ⟨front, rfl⟩ := List.getLast?_eq_some_iff.mp hreturn
    rw [List.dropLast_concat, ofLine, ofLine,
      Text.trimEnd_append (List.forall_mem_singleton.mpr (by decide))]
  · rfl

theorem ofLine_trimEnd (line : List Char) : ofLine (Text.trimEnd line) = ofLine line := by
  rw [ofLine, Text.trimEnd_trimEnd, ofLine]

/-! ## The lines of a text -/

/-- The text consists of the lines `ended`, each with a line end after it, and of the line
`last`. -/
structure Divided (source : List Char) (ended : List (List Char)) (last : List Char) : Prop where
  text : source = ended.flatMap (· ++ ['\n']) ++ last
  ended : ∀ line ∈ ended, '\n' ∉ line
  last : '\n' ∉ last

theorem exists_divided (source : List Char) : ∃ ended last, Divided source ended last := by
  induction source with
  | nil => exact ⟨[], [], rfl, by simp, by simp⟩
  | cons c rest ih =>
    obtain ⟨ended, last, rfl, hended, hlast⟩ := ih
    by_cases hc : c = '\n'
    · exact ⟨[] :: ended, last, by simp [hc], by simpa using hended, hlast⟩
    · -- the character begins the first line, which may be the last
      have hline : ∀ {line}, '\n' ∉ line → '\n' ∉ c :: line := by
        intro line hline
        simp [hline, Ne.symm hc]
      cases ended with
      | nil => exact ⟨[], c :: last, rfl, by simp, hline hlast⟩
      | cons line ended =>
        obtain ⟨hfirst, hothers⟩ := List.forall_mem_cons.mp hended
        exact ⟨(c :: line) :: ended, last, rfl, List.forall_mem_cons.mpr ⟨hline hfirst, hothers⟩,
          hlast⟩

variable {source : List Char} {ended : List (List Char)} {last : List Char}

theorem Divided.forall_parts (h : Divided source ended last) :
    ∀ line ∈ ended ++ [last], '\n' ∉ line :=
  List.forall_mem_append.mpr ⟨h.ended, List.forall_mem_singleton.mpr h.last⟩

theorem Divided.splitOn (h : Divided source ended last) :
    source.splitOn '\n' = ended ++ [last] := by
  obtain ⟨rfl, hended, hlast⟩ := h
  induction ended with
  | nil => exact List.splitOn_eq_singleton hlast
  | cons line ended ih =>
    obtain ⟨hfirst, hothers⟩ := List.forall_mem_cons.mp hended
    rw [List.flatMap_cons, List.append_assoc, List.append_assoc, List.singleton_append,
      List.splitOn_append_cons_self_of_not_mem hfirst, ih hothers, List.cons_append]

/-- The last line is empty where nothing stands before it but a line end. -/
theorem Divided.last_eq_nil_iff (h : Divided source ended last) :
    last = [] ↔ source = [] ∨ source.getLast? = some '\n' := by
  obtain ⟨rfl, _, hlast⟩ := h
  constructor
  · rintro rfl
    rcases List.eq_nil_or_concat ended with rfl | ⟨front, line, rfl⟩
    · exact Or.inl rfl
    · exact Or.inr (by simp)
  · intro hend
    by_contra hne
    rcases hend with hnil | hend
    · exact hne (List.append_eq_nil_iff.mp hnil).2
    · rw [List.getLast?_append_of_ne_nil _ hne] at hend
      exact hlast (List.mem_of_getLast? hend)

theorem Divided.ofText {source : String} (h : Divided source.toList ended last) :
    (ofText source).rows = ended.map ofLine ++ [ofLine last] := by
  rw [Playfield.ofText, h.splitOn, List.map_append, List.map_singleton]

theorem Divided.ofLines {source : String} (h : Divided source.toList ended last) :
    (ofLines source).rows = ended.map ofLine ++ if last = [] then [] else [ofLine last] := by
  have hended : (ended.map withoutReturn).map ofLine = ended.map ofLine := by
    simp [ofLine_withoutReturn]
  simp only [Playfield.ofLines, lines, h.splitOn, List.getLast?_concat, List.dropLast_concat,
    Option.some.injEq]
  split
  · rw [hended, List.append_nil]
  · rw [List.map_append, hended]
    rfl

/-- **The two ways to load a text agree.** Loaded as a whole, a text makes the rows that a file
with this content makes, whatever blanks and carriage returns stand before its line ends, and one
empty row after them if the text is empty or ends with a line end. -/
theorem loading_agrees (name source : String) :
    ∃ f, load name (.holding source) = .ok f ∧
      (ofText source).rows =
        f.rows ++ if source = "" ∨ source.toList.getLast? = some '\n' then [[]] else [] := by
  refine ⟨_, load_holding name source, ?_⟩
  obtain ⟨ended, last, h⟩ := exists_divided source.toList
  have hlast := h.last_eq_nil_iff
  rw [String.toList_eq_nil_iff] at hlast
  simp only [h.ofText, h.ofLines, ← hlast]
  split
  · next hnil =>
    subst hnil
    rw [List.append_nil]
    rfl
  · rw [List.append_nil]

/-! ## Printing -/

/-- Every row has been made of a line of text. -/
def Legible (f : Playfield) : Prop :=
  ∃ parts : List (List Char), f.rows = parts.map ofLine ∧ ∀ line ∈ parts, '\n' ∉ line

theorem legible_ofText (source : String) : (ofText source).Legible := by
  obtain ⟨ended, last, h⟩ := exists_divided source.toList
  refine ⟨ended ++ [last], ?_, h.forall_parts⟩
  rw [h.ofText, List.map_append, List.map_singleton]

theorem legible_ofLines (source : String) : (ofLines source).Legible := by
  obtain ⟨ended, last, h⟩ := exists_divided source.toList
  by_cases hlast : last = []
  · exact ⟨ended, by rw [h.ofLines, if_pos hlast, List.append_nil], h.ended⟩
  · refine ⟨ended ++ [last], ?_, h.forall_parts⟩
    rw [h.ofLines, if_neg hlast, List.map_append, List.map_singleton]

theorem rowText_ofLine (line : List Char) :
    (rowText (ofLine line)).toList = Text.trimEnd line := by
  simp [rowText, ofLine, Cell.text, Function.comp_def, String.toList_join, List.flatMap_map]

/-- A playfield made of lines is printed as lines that make the same rows. -/
theorem Legible.divided_text {f : Playfield} (h : f.Legible) :
    ∃ parts, f.rows = parts.map ofLine ∧ Divided f.text.toList parts [] := by
  obtain ⟨parts, hrows, hparts⟩ := h
  refine ⟨parts.map Text.trimEnd, ?_, ?_, ?_, by simp⟩
  · rw [hrows]
    simp [ofLine_trimEnd]
  · simp [text, hrows, String.toList_join, List.flatMap_map, rowText_ofLine]
  · intro line hline
    obtain ⟨part, hpart, rfl⟩ := List.mem_map.mp hline
    exact fun hmem => hparts part hpart (Text.mem_of_mem_trimEnd hmem)

/-- What the playfield prints is loaded as the same playfield. -/
structure Reloads (f : Playfield) : Prop where
  load : ∀ name, load name (.holding f.text) = .ok f
  ofText : (ofText f.text).rows = f.rows ++ [[]]

theorem Legible.reloads {f : Playfield} (h : f.Legible) : f.Reloads := by
  obtain ⟨parts, hrows, hdivided⟩ := h.divided_text
  constructor
  · intro name
    have hlines : (ofLines f.text).rows = f.rows := by
      rw [hdivided.ofLines, if_pos rfl, List.append_nil, hrows]
    rw [load_holding, show ofLines f.text = f from congrArg Playfield.mk hlines]
  · rw [hdivided.ofText, hrows]
    rfl

/-- **A loaded program is loaded again from what it prints.** Whichever way a text has been loaded,
a file with what the playfield prints is loaded as the same playfield, and the printed text as a
whole makes the same rows and an empty one after them. -/
theorem loaded_reloads (name source : String) :
    (ofText source).Reloads ∧ ∃ f, load name (.holding source) = .ok f ∧ f.Reloads :=
  ⟨(legible_ofText source).reloads, _, load_holding name source, (legible_ofLines source).reloads⟩

/-- A carriage return inside a line is a cell, and one before the line end is a blank at the end of
its line. -/
example : (ofText "a\rb\r\ncd \n").rows =
    [[.char 'a', .char '\r', .char 'b'], [.char 'c', .char 'd'], []] ∧
    (ofLines "a\rb\r\ncd \n").text = "a\rb\ncd\n" := by
  decide +kernel

end Playfield

end Funge
