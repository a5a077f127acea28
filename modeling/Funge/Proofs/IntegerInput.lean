import Funge.Proofs.Blank
import Funge.Proofs.LineInput
import Funge.Proofs.Literal
import Funge.Proofs.Progress

/-!
Input of integers. Lines are passed over until one holds a literal of a word, with or without blanks
around it; that line is the last to be taken. What a program prints of an integer is such a line.
-/

namespace Funge.Console

open Text

variable {k : Console} {pieces : List (List UInt8)} {piece : List UInt8} {i j : Nat} {v w : Int64}

/-- The piece is a line that, but for blanks around it, is a literal of the value. -/
inductive Holds : List UInt8 → Int64 → Prop
  | intro {text : String} {line core : List Char} {v : Int64} (hline : LineText text.toList line)
      (hcore : Stripped line core) (hliteral : Decimal.Literal core v.toInt) :
      Holds (Utf8.encode text).toList v

theorem holds_iff (text : String) (v : Int64) :
    Holds (Utf8.encode text).toList v ↔
      Decimal.readInt64 (trim (withoutEnd text.toList)) = .ok v := by
  rw [Decimal.readInt64_eq_ok_iff]
  constructor
  · intro h
    generalize hpiece : (Utf8.encode text).toList = piece at h
    cases h with
    | intro hline hcore hliteral =>
      have htext := Utf8.encode_inj (Array.toList_inj.mp hpiece)
      rwa [htext, hline.withoutEnd, hcore.trim]
  · exact fun h => .intro (lineText_withoutEnd text.toList) (stripped_trim _) h

theorem Holds.unique (h : Holds piece v) (h' : Holds piece w) : v = w := by
  obtain ⟨text, rfl⟩ : ∃ text, (Utf8.encode text).toList = piece := by
    cases h
    exact ⟨_, rfl⟩
  rw [holds_iff] at h h'
  exact Except.ok.inj (h.symm.trans h')

/-- Of the pieces the first that holds an integer is the `i`th, and it holds `v`. -/
structure FirstHolds (pieces : List (List UInt8)) (i : Nat) (v : Int64) : Prop where
  holds : ∃ piece, pieces[i]? = some piece ∧ Holds piece v
  before : ∀ j < i, ∀ piece, pieces[j]? = some piece → ∀ w, ¬ Holds piece w

theorem FirstHolds.lt_length (h : FirstHolds pieces i v) : i < pieces.length := by
  obtain ⟨piece, hpiece, _⟩ := h.holds
  exact (List.getElem?_eq_some_iff.mp hpiece).1

theorem FirstHolds.exists_mem (h : FirstHolds pieces i v) : ∃ piece ∈ pieces, Holds piece v := by
  obtain ⟨piece, hpiece, hholds⟩ := h.holds
  exact ⟨piece, List.mem_of_getElem? hpiece, hholds⟩

theorem FirstHolds.le (h : FirstHolds pieces i v) (h' : FirstHolds pieces j w) : i ≤ j := by
  obtain ⟨piece, hpiece, hholds⟩ := h'.holds
  exact Nat.le_of_not_lt fun hlt => h.before j hlt piece hpiece w hholds

theorem FirstHolds.unique (h : FirstHolds pieces i v) (h' : FirstHolds pieces j w) :
    i = j ∧ v = w := by
  obtain rfl := Nat.le_antisymm (h.le h') (h'.le h)
  obtain ⟨piece, hpiece, hholds⟩ := h.holds
  obtain ⟨piece', hpiece', hholds'⟩ := h'.holds
  obtain rfl := Option.some.inj (hpiece.symm.trans hpiece')
  exact ⟨rfl, hholds.unique hholds'⟩

theorem FirstHolds.cons (hpiece : ∀ w, ¬ Holds piece w) (h : FirstHolds pieces i v) :
    FirstHolds (piece :: pieces) (i + 1) v := by
  refine ⟨h.holds, fun j hj other hother => ?_⟩
  cases j with
  | zero =>
    obtain rfl := Option.some.inj hother
    exact hpiece
  | succ j => exact h.before j (Nat.lt_of_succ_lt_succ hj) other hother

/-- A line with an integer is the last that is taken, and a line without one is passed over. -/
theorem readInteger_cons {text : String}
    (hcut : Cut k.input ((Utf8.encode text).toList :: pieces)) :
    (∃ v, Holds (Utf8.encode text).toList v ∧
      k.readInteger = ⟨.ok v, [], { k with input := pieces.flatten }⟩) ∨
    (∀ w, ¬ Holds (Utf8.encode text).toList w) ∧
      k.readInteger.value = ({ k with input := pieces.flatten } : Console).readInteger.value ∧
      k.readInteger.console =
        ({ k with input := pieces.flatten } : Console).readInteger.console := by
  rw [readInteger_eq, hcut.readLine_text]
  simp only [holds_iff]
  cases Decimal.readInt64 (trim (withoutEnd text.toList)) with
  | ok v => exact Or.inl ⟨v, rfl, rfl⟩
  | error reason =>
    refine Or.inr ⟨fun w hw => ?_, rfl, rfl⟩
    cases hw

/-- Along the pieces, reading ends after the first that holds an integer or at the end of the
input. -/
theorem readInteger_cases (hcut : Cut k.input pieces)
    (hvalid : ∀ piece ∈ pieces, ∃ text, (Utf8.encode text).toList = piece) :
    (∃ i v, FirstHolds pieces i v ∧ k.readInteger.value = .ok v ∧
      k.readInteger.console = { k with input := (pieces.drop (i + 1)).flatten }) ∨
    (∀ piece ∈ pieces, ∀ w, ¬ Holds piece w) ∧
      k.readInteger.value = .error (.inputExhausted .integer) ∧
      k.readInteger.console = { k with input := [] } := by
  induction pieces generalizing k with
  | nil =>
    rw [readInteger_eq, readLine_of_empty hcut.flatten.symm]
    exact Or.inr ⟨by simp, rfl, rfl⟩
  | cons piece pieces ih =>
    obtain ⟨⟨text, rfl⟩, hrest⟩ := List.forall_mem_cons.mp hvalid
    rcases readInteger_cons hcut with ⟨v, hv, hread⟩ | ⟨hnone, hvalue, hconsole⟩
    · rw [hread]
      exact Or.inl ⟨0, v, ⟨⟨_, rfl, hv⟩, by simp⟩, rfl, rfl⟩
    · rw [hvalue, hconsole]
      rcases ih (k := { k with input := pieces.flatten }) hcut.cons.2.2 hrest with
        ⟨i, v, hfirst, hresult⟩ | ⟨hothers, hresult⟩
      · exact Or.inl ⟨i + 1, v, hfirst.cons hnone, hresult⟩
      · exact Or.inr ⟨List.forall_mem_cons.mpr ⟨hnone, hothers⟩, hresult⟩

/-- What is left tells how many pieces have been taken. -/
theorem Cut.drop_inj {input : List UInt8} (h : Cut input pieces) (hi : i < pieces.length)
    (hj : j < pieces.length)
    (hsame : (pieces.drop (i + 1)).flatten = (pieces.drop (j + 1)).flatten) : i = j := by
  have hdrop : pieces.drop (j + 1) = pieces.drop (i + 1) :=
    (h.drop (i + 1)).unique (hsame ▸ h.drop (j + 1))
  have hlength := congrArg List.length hdrop
  rw [List.length_drop, List.length_drop] at hlength
  omega

/-- The reader gives `v` and leaves what stands after the `i`th line exactly if that line is the
first to hold an integer, and it holds `v`. -/
theorem readInteger_ok_iff (hcut : Cut k.input pieces)
    (hvalid : ∀ piece ∈ pieces, ∃ text, (Utf8.encode text).toList = piece) (i : Nat) (v : Int64) :
    (i < pieces.length ∧ k.readInteger.value = .ok v ∧
        k.readInteger.console = { k with input := (pieces.drop (i + 1)).flatten }) ↔
      FirstHolds pieces i v := by
  rcases readInteger_cases hcut hvalid with ⟨j, w, hfirst, hvalue, hconsole⟩ | ⟨hnone, hvalue, _⟩
  · rw [hvalue, hconsole]
    constructor
    · rintro ⟨hi, hv, hrest⟩
      obtain rfl := hcut.drop_inj hfirst.lt_length hi (congrArg Console.input hrest)
      obtain rfl := Except.ok.inj hv
      exact hfirst
    · intro h
      obtain ⟨rfl, rfl⟩ := h.unique hfirst
      exact ⟨h.lt_length, rfl, rfl⟩
  · rw [hvalue]
    constructor
    · rintro ⟨_, hv, _⟩
      cases hv
    · intro h
      obtain ⟨piece, hpiece, hholds⟩ := h.exists_mem
      exact absurd hholds (hnone piece hpiece v)

theorem readInteger_exhausted (hcut : Cut k.input pieces)
    (hvalid : ∀ piece ∈ pieces, ∃ text, (Utf8.encode text).toList = piece)
    (hnone : ∀ piece ∈ pieces, ∀ v, ¬ Holds piece v) :
    k.readInteger.value = .error (.inputExhausted .integer) ∧
      k.readInteger.console = { k with input := [] } := by
  rcases readInteger_cases hcut hvalid with ⟨i, v, hfirst, _⟩ | ⟨_, hresult⟩
  · obtain ⟨piece, hpiece, hholds⟩ := hfirst.exists_mem
    exact absurd hholds (hnone piece hpiece v)
  · exact hresult

/-! ## Printed integers -/

theorem newline_not_mem_write (v : Int) : '\n' ∉ (Decimal.write v ++ " ").toList := by
  rw [String.toList_append]
  intro h
  rcases List.mem_append.mp h with h | h
  · exact absurd ((Decimal.literal_write v).not_blank _ h) (by decide)
  · exact absurd h (by decide)

theorem holds_write (v : Int64) :
    Holds (Utf8.encode (Decimal.write v.toInt ++ " " ++ "\n")).toList v := by
  have hliteral := Decimal.literal_write v.toInt
  have hline : LineText (Decimal.write v.toInt ++ " " ++ "\n").toList
      ((Decimal.write v.toInt).toList ++ [' ']) := by
    simp only [String.toList_append]
    exact .ended (by simp)
  exact .intro hline (stripped_append hliteral.not_blank (by simp; decide)) hliteral

theorem readInteger_write {rest : List UInt8}
    (h : k.input = (Utf8.encode (Decimal.write v.toInt ++ " ")).toList ++ 10 :: rest) :
    k.readInteger = ⟨.ok v, [], { k with input := rest }⟩ := by
  obtain ⟨pieces, hcut, hrest⟩ := exists_cut_of_line (newline_not_mem_write v.toInt) h
  rcases readInteger_cons hcut with ⟨w, hw, hread⟩ | ⟨hnone, _⟩
  · rw [hread, hw.unique (holds_write v), hrest]
  · exact absurd (holds_write v) (hnone v)

/-- **Integers are read from the first line with a literal.** In an input of lines that are texts,
the reader gives `v` and leaves the lines after the `i`th if and only if that is the first line that
holds an integer, and it holds `v`; if no line holds one, the input is exhausted. What is printed of
an integer, with a line feed after it, is a line that gives the integer back, whatever follows. -/
theorem readInteger_takes_first_literal {k : Console} {pieces : List (List UInt8)}
    (hcut : Cut k.input pieces)
    (hvalid : ∀ piece ∈ pieces, ∃ text, (Utf8.encode text).toList = piece) :
    (∀ i v, (i < pieces.length ∧ k.readInteger.value = .ok v ∧
        k.readInteger.console = { k with input := (pieces.drop (i + 1)).flatten }) ↔
      FirstHolds pieces i v) ∧
    ((∀ piece ∈ pieces, ∀ v, ¬ Holds piece v) →
      k.readInteger.value = .error (.inputExhausted .integer) ∧
        k.readInteger.console = { k with input := [] }) ∧
    ∀ v, ∃ text, Machine.Emits .printInteger v text ∧
      ∀ rest, ({ k with input := (Utf8.encode text).toList ++ 10 :: rest } : Console).readInteger =
        ⟨.ok v, [], { k with input := rest }⟩ := by
  refine ⟨readInteger_ok_iff hcut hvalid, readInteger_exhausted hcut hvalid, fun v => ?_⟩
  exact ⟨_, Machine.emits_printInteger v, fun rest => readInteger_write rfl⟩

/-- A line with no integer, one with blanks and zeros before the digits, and one more. -/
theorem readInteger_takes_first_literal_padded :
    let k : Console := { input := [0x78, 10, 0x20, 0x2b, 0x30, 0x37, 13, 10, 0x39] }
    let pieces : List (List UInt8) := [[0x78, 10], [0x20, 0x2b, 0x30, 0x37, 13, 10], [0x39]]
    Cut k.input pieces ∧ (∀ piece ∈ pieces, ∃ text, (Utf8.encode text).toList = piece) ∧
      FirstHolds pieces 1 7 ∧ k.readInteger.value = .ok 7 ∧
        k.readInteger.console = { k with input := [0x39] } := by
  intro k pieces
  have hcut : Cut k.input pieces :=
    show Cut ([0x78] ++ 10 :: ([0x20, 0x2b, 0x30, 0x37, 13] ++ 10 :: [0x39])) _ from
      .line (by decide) (.line (by decide) (.last (by decide) (by decide)))
  have hvalid : ∀ piece ∈ pieces, ∃ text, (Utf8.encode text).toList = piece := by
    simp only [pieces, List.forall_mem_cons]
    exact ⟨⟨"x\n", rfl⟩, ⟨" +07\r\n", rfl⟩, ⟨"9", rfl⟩, by simp⟩
  have hfirst : FirstHolds pieces 1 7 := by
    refine ⟨⟨_, rfl, (holds_iff " +07\r\n" 7).mpr rfl⟩, fun j hj piece hpiece w hw => ?_⟩
    obtain rfl : j = 0 := by omega
    obtain rfl := Option.some.inj hpiece
    cases (holds_iff "x\n" w).mp hw
  exact ⟨hcut, hvalid, hfirst, (((readInteger_takes_first_literal hcut hvalid).1 1 7).mpr hfirst).2⟩

end Funge.Console
