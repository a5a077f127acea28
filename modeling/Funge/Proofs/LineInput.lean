import Funge.Proofs.Console

/-!
Input line by line. The input falls into pieces, which a line feed ends, and every piece is the
answer to one read: its text without the line end, or a fault if it is no text. After the last
piece there are no more lines.
-/

namespace Funge.Console

open Text

/-! ## The pieces of an input -/

/-- The input consists of the pieces. A line feed ends a piece and stands nowhere else in it; only
the last piece may lack one, and no piece is empty. -/
inductive Cut : List UInt8 → List (List UInt8) → Prop
  | nil : Cut [] []
  | last {piece : List UInt8} (hne : piece ≠ []) (hfree : 10 ∉ piece) : Cut piece [piece]
  | line {line rest : List UInt8} {pieces : List (List UInt8)} (hfree : 10 ∉ line)
      (hrest : Cut rest pieces) : Cut (line ++ 10 :: rest) ((line ++ [10]) :: pieces)

theorem exists_cut (input : List UInt8) : ∃ pieces, Cut input pieces := by
  induction input with
  | nil => exact ⟨[], .nil⟩
  | cons b input ih =>
    obtain ⟨pieces, hcut⟩ := ih
    by_cases hb : b = 10
    · subst hb
      exact ⟨[10] :: pieces, show Cut ([] ++ 10 :: input) _ from .line List.not_mem_nil hcut⟩
    · -- the byte begins the first piece
      have hfree : ∀ {line : List UInt8}, 10 ∉ line → 10 ∉ b :: line := by
        intro line hline
        simp [hline, Ne.symm hb]
      cases hcut with
      | nil => exact ⟨[[b]], .last (by simp) (hfree (by simp))⟩
      | last _ hpiece => exact ⟨[b :: input], .last (by simp) (hfree hpiece)⟩
      | line hline hrest => exact ⟨_, .line (hfree hline) hrest⟩

variable {input : List UInt8} {pieces : List (List UInt8)}

theorem Cut.flatten (h : Cut input pieces) : pieces.flatten = input := by
  induction h with
  | nil => rfl
  | last => simp
  | line _ _ ih => simp [ih]

theorem cutLine_of_free {line : List UInt8} (h : 10 ∉ line) : cutLine line = (line, []) := by
  induction line with
  | nil => rfl
  | cons b line ih =>
    obtain ⟨hb, hline⟩ := not_or.mp (mt List.mem_cons.mpr h)
    rw [cutLine, if_neg (Ne.symm hb), ih hline]

theorem cutLine_append {line : List UInt8} (h : 10 ∉ line) (rest : List UInt8) :
    cutLine (line ++ 10 :: rest) = (line ++ [10], rest) := by
  induction line with
  | nil => rfl
  | cons b line ih =>
    obtain ⟨hb, hline⟩ := not_or.mp (mt List.mem_cons.mpr h)
    rw [List.cons_append, cutLine, if_neg (Ne.symm hb), ih hline]
    rfl

/-- A read takes the first piece and leaves the others. -/
theorem Cut.cons {piece : List UInt8} (h : Cut input (piece :: pieces)) :
    piece ≠ [] ∧ cutLine input = (piece, pieces.flatten) ∧ Cut pieces.flatten pieces := by
  cases h with
  | last hne hfree => exact ⟨hne, cutLine_of_free hfree, .nil⟩
  | line hfree hrest =>
    rw [hrest.flatten]
    exact ⟨by simp, cutLine_append hfree _, hrest⟩

theorem Cut.drop (h : Cut input pieces) (n : Nat) :
    Cut (pieces.drop n).flatten (pieces.drop n) := by
  induction n generalizing input pieces with
  | zero => exact h.flatten.symm ▸ h
  | succ n ih =>
    cases pieces with
    | nil => exact .nil
    | cons piece pieces => exact ih h.cons.2.2

/-- There is only one way to cut an input. -/
theorem Cut.unique {others : List (List UInt8)} (h : Cut input pieces) (h' : Cut input others) :
    others = pieces := by
  induction pieces generalizing input others with
  | nil =>
    cases others with
    | nil => rfl
    | cons other others =>
      have hempty : other ++ others.flatten = [] := h'.flatten.trans h.flatten.symm
      exact absurd (List.append_eq_nil_iff.mp hempty).1 h'.cons.1
  | cons piece pieces ih =>
    obtain ⟨hne, hcut, hrest⟩ := h.cons
    cases others with
    | nil =>
      have hempty : piece ++ pieces.flatten = [] := h.flatten.trans h'.flatten.symm
      exact absurd (List.append_eq_nil_iff.mp hempty).1 hne
    | cons other others =>
      obtain ⟨_, hcut', hrest'⟩ := h'.cons
      obtain ⟨hpiece, hpieces⟩ := Prod.mk.inj (hcut.symm.trans hcut')
      rw [← hpieces] at hrest'
      rw [hpiece, ih hrest hrest']

/-! ## The answers of reads -/

/-- The text is the line with its end: a carriage return and a line feed, a line feed, or nothing.
A carriage return belongs to the end only directly before a line feed. -/
inductive LineText : List Char → List Char → Prop
  | returned (line : List Char) : LineText (line ++ ['\r', '\n']) line
  | ended {line : List Char} (h : line.getLast? ≠ some '\r') : LineText (line ++ ['\n']) line
  | unended {line : List Char} (h : line.getLast? ≠ some '\n') : LineText line line

theorem LineText.withoutEnd {text line : List Char} (h : LineText text line) :
    withoutEnd text = line := by
  cases h with
  | returned => simp [Console.withoutEnd]
  | ended h =>
    rw [List.getLast?_eq_head?_reverse] at h
    unfold Console.withoutEnd
    rw [List.reverse_concat]
    split
    · next rest heq =>
      rw [(List.cons.inj heq).2] at h
      exact absurd rfl h
    · next rest _ heq => rw [← (List.cons.inj heq).2, List.reverse_reverse]
    · next hno => exact absurd rfl (hno line.reverse)
  | unended h =>
    rw [List.getLast?_eq_head?_reverse] at h
    unfold Console.withoutEnd
    split
    · next heq => exact absurd (congrArg List.head? heq) h
    · next heq => exact absurd (congrArg List.head? heq) h
    · rfl

theorem lineText_withoutEnd (text : List Char) : LineText text (withoutEnd text) := by
  unfold Console.withoutEnd
  split
  · next rest heq =>
    rw [List.reverse_eq_iff] at heq
    rw [heq, List.reverse_cons, List.reverse_cons, List.append_assoc]
    exact .returned rest.reverse
  · next rest hno heq =>
    rw [List.reverse_eq_iff] at heq
    rw [heq, List.reverse_cons]
    apply LineText.ended
    rw [List.getLast?_reverse]
    intro hreturn
    obtain ⟨others, rfl⟩ := List.head?_eq_some_iff.mp hreturn
    exact hno others rfl
  · next hno =>
    apply LineText.unended
    rw [List.getLast?_eq_head?_reverse]
    intro hend
    obtain ⟨others, hothers⟩ := List.head?_eq_some_iff.mp hend
    exact hno others hothers

/-- What a read answers to a piece, or to the end of the input. -/
inductive Answers : Option (List UInt8) → Except ConsoleFault (Option (List Char)) → Prop
  | done : Answers none (.ok none)
  | line {text : String} {line : List Char} (h : LineText text.toList line) :
      Answers (some (Utf8.encode text).toList) (.ok (some line))
  | invalid {piece : List UInt8} (h : ∀ text, (Utf8.encode text).toList ≠ piece) :
      Answers (some piece) (.error .invalidText)

variable {k : Console}

theorem readLine_of_cutLine {piece rest : List UInt8} (hne : piece ≠ [])
    (hcut : cutLine k.input = (piece, rest)) :
    k.readLine =
      (match Utf8.decode? piece with
        | some text => .ok (some (withoutEnd text.toList))
        | none => .error .invalidText, { k with input := rest }) := by
  obtain ⟨b, bytes, rfl⟩ := List.exists_cons_of_ne_nil hne
  unfold readLine
  rw [hcut]
  dsimp only
  cases Utf8.decode? (b :: bytes) <;> rfl

theorem readLine_of_empty (h : k.input = []) :
    k.readLine = (.ok none, { k with input := [] }) := by
  unfold readLine
  rw [h]
  rfl

/-- A read answers to the first piece and leaves the others, also when it fails. -/
theorem Cut.readLine (h : Cut k.input pieces) :
    (∀ answer, Answers pieces.head? answer ↔ k.readLine.1 = answer) ∧
      k.readLine.2 = { k with input := pieces.tail.flatten } := by
  cases pieces with
  | nil =>
    rw [readLine_of_empty h.flatten.symm]
    refine ⟨fun answer => ⟨fun hanswer => ?_, fun hanswer => ?_⟩, rfl⟩
    · cases hanswer
      rfl
    · exact hanswer ▸ .done
  | cons piece pieces =>
    obtain ⟨hne, hcut, _⟩ := h.cons
    rw [readLine_of_cutLine hne hcut]
    refine ⟨fun answer => ⟨fun hanswer => ?_, fun hanswer => ?_⟩, rfl⟩
    · cases hanswer with
      | line htext => rw [Utf8.decode?_encode, ← htext.withoutEnd]
      | invalid hinvalid => rw [Utf8.decode?_eq_none_iff.mpr hinvalid]
    · rw [← hanswer]
      cases hdecode : Utf8.decode? piece with
      | some text =>
        rw [← Utf8.decode?_eq_some_iff.mp hdecode]
        exact .line (lineText_withoutEnd text.toList)
      | none => exact .invalid (Utf8.decode?_eq_none_iff.mp hdecode)

theorem Cut.readLine_text {text : String} (h : Cut k.input ((Utf8.encode text).toList :: pieces)) :
    k.readLine =
      (.ok (some (withoutEnd text.toList)), { k with input := pieces.flatten }) := by
  obtain ⟨hne, hcut, _⟩ := h.cons
  rw [readLine_of_cutLine hne hcut, Utf8.decode?_encode]

/-- A text of one line and a line feed after it are one piece of the input. -/
theorem exists_cut_of_line {text : String} {rest : List UInt8} (htext : '\n' ∉ text.toList)
    (h : k.input = (Utf8.encode text).toList ++ 10 :: rest) :
    ∃ pieces, Cut k.input ((Utf8.encode (text ++ "\n")).toList :: pieces) ∧
      pieces.flatten = rest := by
  obtain ⟨pieces, hrest⟩ := exists_cut rest
  have hpiece : (Utf8.encode (text ++ "\n")).toList = (Utf8.encode text).toList ++ [10] := by
    rw [Utf8.encode_append, Array.toList_append]
    rfl
  rw [h, hpiece]
  exact ⟨pieces, .line (fun hmem => htext (Utf8.newline_mem_encode hmem)) hrest, hrest.flatten⟩

/-- The console after `n` reads. -/
def afterLines (k : Console) : Nat → Console
  | 0 => k
  | n + 1 => (k.afterLines n).readLine.2

/-- The read after `n` pieces answers to the next. -/
theorem Cut.readLine_drop (h : Cut k.input pieces) (n : Nat) :
    (∀ answer, Answers pieces[n]? answer ↔
      ({ k with input := (pieces.drop n).flatten } : Console).readLine.1 = answer) ∧
      ({ k with input := (pieces.drop n).flatten } : Console).readLine.2 =
        { k with input := (pieces.drop (n + 1)).flatten } := by
  have hread := Cut.readLine (k := { k with input := (pieces.drop n).flatten }) (h.drop n)
  rwa [List.head?_drop, List.tail_drop] at hread

theorem Cut.afterLines (h : Cut k.input pieces) (n : Nat) :
    k.afterLines n = { k with input := (pieces.drop n).flatten } := by
  induction n with
  | zero =>
    rw [List.drop_zero, h.flatten]
    rfl
  | succ n ih => rw [Console.afterLines, ih, (h.readLine_drop n).2]

/-- **Reading by lines loses and invents nothing.** The input is cut into pieces in one way, and of
the reads one after the other the `n`th answers to the `n`th piece and to nothing else: with the
text of the piece without its line end, with a fault if the piece is no text, and after the last
piece with the end of the input. After `n` reads, failed or not, the first `n` pieces are gone and
all else is as it was. -/
theorem lines_answer_pieces (k : Console) :
    ∃ pieces, (∀ others, Cut k.input others ↔ others = pieces) ∧
      ∀ n, (∀ answer, Answers pieces[n]? answer ↔ (k.afterLines n).readLine.1 = answer) ∧
        k.afterLines n = { k with input := (pieces.drop n).flatten } := by
  obtain ⟨pieces, hcut⟩ := exists_cut k.input
  refine ⟨pieces, fun others => ⟨hcut.unique, fun h => h ▸ hcut⟩, fun n => ⟨?_, hcut.afterLines n⟩⟩
  rw [hcut.afterLines n]
  exact (hcut.readLine_drop n).1

end Funge.Console
