import Funge.Proofs.LineInput
import Funge.Proofs.Progress

/-!
Characters printed and read back. A value that is the code of a character is printed as that
character and any other value as the replacement character. As a line of input the printed bytes
give the printed code, but a carriage return is taken for a part of the line end.
-/

namespace Funge

open Text

/-- The codes of characters: the code points without the surrogates. -/
def Word.IsScalar (v : Int64) : Prop :=
  0 ≤ v.toInt ∧ v.toInt < 0xd800 ∨ 0xe000 ≤ v.toInt ∧ v.toInt < 0x110000

instance (v : Int64) : Decidable (Word.IsScalar v) := inferInstanceAs (Decidable (_ ∨ _))

namespace Word

theorem char?_of_isScalar {v : Int64} (h : IsScalar v) :
    ∃ ch, char? v = some ch ∧ (ch.toNat : Int) = v.toInt := by
  have hvalid : v.toInt.toNat.isValidChar := by
    unfold IsScalar at h
    unfold Nat.isValidChar
    omega
  have hnonneg : 0 ≤ v := by
    unfold IsScalar at h
    rw [Int64.le_iff_toInt_le, Int64.toInt_zero]
    omega
  refine ⟨Char.ofNat v.toInt.toNat, if_pos ⟨hnonneg, hvalid⟩, ?_⟩
  rw [Utf8.toNat_ofNat hvalid, Int.toNat_of_nonneg (Int64.le_iff_toInt_le.mp hnonneg)]

theorem char?_of_not_isScalar {v : Int64} (h : ¬ IsScalar v) : char? v = none := by
  apply if_neg
  rintro ⟨hnonneg, hvalid⟩
  rw [Int64.le_iff_toInt_le, Int64.toInt_zero] at hnonneg
  unfold IsScalar at h
  unfold Nat.isValidChar at hvalid
  omega

end Word

/-- The value is printed as a character with its own code or as the replacement character. -/
theorem Cursor.exists_printedCharacter (v : Int64) :
    ∃ ch, printedCharacter v = String.singleton ch ∧
      (ch.toNat : Int) = if Word.IsScalar v then v.toInt else 0xfffd := by
  unfold printedCharacter
  by_cases hv : Word.IsScalar v
  · obtain ⟨ch, hchar, hcode⟩ := Word.char?_of_isScalar hv
    refine ⟨ch, by rw [hchar, Option.getD_some], ?_⟩
    rw [if_pos hv, hcode]
  · refine ⟨Utf8.replacement, by rw [Word.char?_of_not_isScalar hv, Option.getD_none], ?_⟩
    rw [if_neg hv]
    rfl

namespace Console

/-- The code that a line is read as: that of its first character, or of the line feed. -/
def lineCode (line : List Char) : Int64 :=
  (line.head?.map fun ch => Int64.ofNat ch.toNat).getD newlineCode

theorem readCharacter_of_line {k : Console} {text : String} {rest : List UInt8} {line : List Char}
    (htext : '\n' ∉ text.toList) (hline : LineText (text.toList ++ ['\n']) line)
    (h : k.input = (Utf8.encode text).toList ++ 10 :: rest) :
    k.readCharacter = ⟨.ok (lineCode line), [], { k with input := rest }⟩ := by
  obtain ⟨pieces, hcut, hrest⟩ := exists_cut_of_line htext h
  have hread : k.readLine = (.ok (some line), { k with input := rest }) := by
    rw [hcut.readLine_text, hrest, String.toList_append]
    exact congrArg (fun line => (Except.ok (some line), _)) hline.withoutEnd
  unfold readCharacter
  rw [hread]
  cases line <;> rfl

/-- A character and a line feed after it. The character is read unless it is itself a part of a line
end; of two line feeds the second is left. -/
theorem readCharacter_of_character {k : Console} {ch : Char} {rest : List UInt8}
    (h : k.input = String.utf8EncodeChar ch ++ 10 :: rest) :
    k.readCharacter =
      ⟨.ok (if ch = '\r' then newlineCode else Int64.ofNat ch.toNat), [],
        { k with input := if ch = '\n' then 10 :: rest else rest }⟩ := by
  by_cases hfeed : ch = '\n'
  · subst hfeed
    have hline : LineText ("".toList ++ ['\n']) [] := by
      rw [String.toList_empty]
      exact .ended (by simp)
    have hempty : k.input = (Utf8.encode "").toList ++ 10 :: (10 :: rest) := h
    rw [readCharacter_of_line (by simp) hline hempty]
    rfl
  · have htext : '\n' ∉ (String.singleton ch).toList := by simpa using Ne.symm hfeed
    rw [← Utf8.encode_singleton] at h
    rw [if_neg hfeed]
    by_cases hreturn : ch = '\r'
    · subst hreturn
      rw [readCharacter_of_line htext (.returned []) h]
      rfl
    · have hline : LineText ((String.singleton ch).toList ++ ['\n']) [ch] := by
        rw [String.toList_singleton]
        exact .ended (by simpa using hreturn)
      rw [readCharacter_of_line htext hline h, if_neg hreturn]
      rfl

end Console

namespace Machine

/-- The machine with the input. -/
def fed (m : Machine) (input : List UInt8) : Machine :=
  { m with console := { m.console with input := input } }

theorem execute_readCharacter {m : Machine} {k : Console} {v : Int64} (c : Cursor)
    (h : m.console.readCharacter = ⟨.ok v, [], k⟩) :
    m.execute c .readCharacter = ⟨{ m with console := k }, c.push v, .ok ()⟩ := by
  change m.received c m.console.readCharacter = _
  rw [h, received]
  simp

/-- **A printed character is read back.** Every value is printed as one character in UTF-8: the one
with this code, or the replacement character if the value is no code of a character. Of these bytes
with a line feed after them, the instruction that reads a character pushes the value or, where the
replacement was printed, its code; only for a carriage return it pushes the code of the line
feed. -/
theorem printed_character_reads_back (v : Int64) :
    ∃ ch : Char, (ch.toNat : Int) = (if Word.IsScalar v then v.toInt else 0xfffd) ∧
      Emits .printCharacter v (String.singleton ch) ∧
      (Utf8.encode (String.singleton ch)).toList = String.utf8EncodeChar ch ∧
      ∀ (m : Machine) (c : Cursor) (rest : List UInt8),
        (m.fed (String.utf8EncodeChar ch ++ 10 :: rest)).execute c .readCharacter =
          ⟨m.fed (if v = 10 then 10 :: rest else rest),
            c.push (if v = 13 then 10 else if Word.IsScalar v then v else 0xfffd), .ok ()⟩ := by
  obtain ⟨ch, hprinted, hcode⟩ := Cursor.exists_printedCharacter v
  have hlow : ∀ n : Nat, n < 0xd800 → (ch.toNat = n ↔ v.toInt = n) := by
    intro n hn
    split at hcode
    · omega
    · next hv =>
      unfold Word.IsScalar at hv
      omega
  have hfeed : ch = '\n' ↔ v = 10 := by
    rw [← Char.toNat_inj, ← Int64.toInt_inj]
    exact hlow 10 (by decide)
  have hreturn : ch = '\r' ↔ v = 13 := by
    rw [← Char.toNat_inj, ← Int64.toInt_inj]
    exact hlow 13 (by decide)
  have hword : Int64.ofNat ch.toNat = if Word.IsScalar v then v else 0xfffd := by
    rw [← Int64.ofInt_eq_ofNat, hcode]
    split
    · exact Int64.ofInt_toInt v
    · rfl
  refine ⟨ch, hcode, hprinted ▸ emits_printCharacter v, Utf8.encode_singleton ch, ?_⟩
  intro m c rest
  rw [execute_readCharacter c (Console.readCharacter_of_character rfl), hword]
  simp only [hfeed, hreturn]
  rfl

end Machine

end Funge
