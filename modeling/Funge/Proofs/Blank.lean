import Mathlib.Data.List.DropRight
import Funge.Text.Blank

/-!
Blanks at the ends of a text. A text is in one way a part that neither starts nor ends with a blank,
with blanks before and after it, and trimming finds that part.
-/

namespace Funge.Text

theorem trimEnd_eq (s : List Char) : trimEnd s = (trimStart s.reverse).reverse := rfl

theorem trimStart_append {before : List Char} (h : ∀ c ∈ before, isBlank c = true)
    (s : List Char) : trimStart (before ++ s) = trimStart s :=
  List.dropWhile_append_of_pos h

theorem trimEnd_append {after : List Char} (h : ∀ c ∈ after, isBlank c = true) (s : List Char) :
    trimEnd (s ++ after) = trimEnd s := by
  rw [trimEnd_eq, List.reverse_append, trimStart_append (by simpa using h), trimEnd_eq]

theorem trimEnd_trimEnd (s : List Char) : trimEnd (trimEnd s) = trimEnd s :=
  List.rdropWhile_idempotent isBlank s

theorem mem_of_mem_trimEnd {c : Char} {s : List Char} (h : c ∈ trimEnd s) : c ∈ s :=
  (List.rdropWhile_prefix isBlank s).subset h

theorem trimStart_of_head? {s : List Char} (h : ∀ c ∈ s.head?, isBlank c = false) :
    trimStart s = s := by
  cases s with
  | nil => rfl
  | cons c s => exact List.dropWhile_cons_of_neg (by simp [h c rfl])

theorem trimEnd_of_getLast? {s : List Char} (h : ∀ c ∈ s.getLast?, isBlank c = false) :
    trimEnd s = s := by
  rw [List.getLast?_eq_head?_reverse] at h
  rw [trimEnd_eq, trimStart_of_head? h, List.reverse_reverse]

theorem head?_trimStart (s : List Char) : ∀ c ∈ (trimStart s).head?, isBlank c = false := by
  intro c hc
  have h := List.head?_dropWhile_not isBlank s
  rwa [show (s.dropWhile isBlank).head? = some c from hc] at h

theorem getLast?_trimEnd (s : List Char) : ∀ c ∈ (trimEnd s).getLast?, isBlank c = false := by
  rw [trimEnd_eq, List.getLast?_reverse]
  exact head?_trimStart s.reverse

theorem exists_append_trimStart (s : List Char) :
    ∃ before, before ++ trimStart s = s ∧ ∀ c ∈ before, isBlank c = true :=
  ⟨_, List.takeWhile_append_dropWhile, fun _ => List.mem_takeWhile_imp⟩

theorem exists_trimEnd_append (s : List Char) :
    ∃ after, trimEnd s ++ after = s ∧ ∀ c ∈ after, isBlank c = true := by
  obtain ⟨before, hbefore, hblank⟩ := exists_append_trimStart s.reverse
  refine ⟨before.reverse, ?_, by simpa using hblank⟩
  rw [trimEnd_eq, ← List.reverse_append, hbefore, List.reverse_reverse]

/-- The text is `core` with blanks before and after it, and `core` neither starts nor ends with a
blank. -/
inductive Stripped : List Char → List Char → Prop
  | intro {before core after : List Char} (hbefore : ∀ c ∈ before, isBlank c = true)
      (hafter : ∀ c ∈ after, isBlank c = true) (hfirst : ∀ c ∈ core.head?, isBlank c = false)
      (hlast : ∀ c ∈ core.getLast?, isBlank c = false) : Stripped (before ++ core ++ after) core

theorem stripped_append {core after : List Char} (hcore : ∀ c ∈ core, isBlank c = false)
    (hafter : ∀ c ∈ after, isBlank c = true) : Stripped (core ++ after) core := by
  have hnone : ∀ c ∈ ([] : List Char), isBlank c = true := by simp
  exact .intro hnone hafter (fun c hc => hcore c (List.mem_of_mem_head? hc))
    (fun c hc => hcore c (List.mem_of_mem_getLast? hc))

theorem Stripped.trim {text core : List Char} (h : Stripped text core) : trim text = core := by
  obtain ⟨hbefore, hafter, hfirst, hlast⟩ := h
  rw [Text.trim, trimEnd_append hafter]
  rcases List.eq_nil_or_concat core with rfl | ⟨front, c, rfl⟩
  · have hempty := trimEnd_append hbefore []
    rw [List.nil_append] at hempty
    rw [List.append_nil, hempty]
    rfl
  · rw [trimEnd_of_getLast? (by simpa using hlast), trimStart_append hbefore,
      trimStart_of_head? hfirst]

theorem stripped_trim (text : List Char) : Stripped text (trim text) := by
  obtain ⟨after, hafter, hafter'⟩ := exists_trimEnd_append text
  obtain ⟨before, hbefore, hbefore'⟩ := exists_append_trimStart (trimEnd text)
  have htext : text = before ++ trim text ++ after := by rw [Text.trim, hbefore, hafter]
  have hlast : ∀ c ∈ (trim text).getLast?, isBlank c = false := by
    intro c hc
    apply getLast?_trimEnd text c
    rw [← hbefore]
    exact List.mem_getLast?_append_of_mem_getLast? hc
  have h := Stripped.intro hbefore' hafter' (head?_trimStart (trimEnd text)) hlast
  rwa [← Text.trim, ← htext] at h

end Funge.Text
