import Mathlib.Tactic.SplitIfs
import Funge.Text.Utf8

/-!
UTF-8. Strict reading takes the encodings of texts and nothing else. A character other than the
line feed has no line feed among its bytes.
-/

namespace Funge.Text.Utf8

/-- A code that belongs to a character is the code of its character. -/
theorem toNat_ofNat {n : Nat} (h : n.isValidChar) : (Char.ofNat n).toNat = n := by
  rw [Char.ofNat, dif_pos h]
  rfl

theorem encode_append (s t : String) : encode (s ++ t) = encode s ++ encode t := by
  simp [encode]

theorem encode_inj {s t : String} (h : encode s = encode t) : s = t :=
  String.toByteArray_inj.mp (ByteArray.ext h)

theorem encode_toList (s : String) :
    (encode s).toList = s.toList.flatMap String.utf8EncodeChar := by
  have hbytes : s.toByteArray = s.toList.utf8Encode := String.utf8Encode_toList.symm
  simp [encode, String.toUTF8, hbytes, List.utf8Encode]

theorem encode_singleton (c : Char) :
    (encode (String.singleton c)).toList = String.utf8EncodeChar c := by
  rw [encode_toList, String.toList_singleton, List.flatMap_singleton]

theorem decode?_encode (s : String) : decode? (encode s).toList = some s := by
  have hbytes : (encode s).toList.toByteArray = s.toByteArray := by
    apply ByteArray.ext
    simp [encode]
  rw [decode?, hbytes, String.fromUTF8?, dif_pos s.isValidUTF8]
  rfl

theorem decode?_eq_some_iff {bytes : List UInt8} {s : String} :
    decode? bytes = some s ↔ (encode s).toList = bytes := by
  constructor
  · intro h
    rw [decode?, String.fromUTF8?] at h
    split at h
    · rw [← Option.some.inj h, encode]
      simp [String.fromUTF8]
    · cases h
  · rintro rfl
    exact decode?_encode s

theorem decode?_eq_none_iff {bytes : List UInt8} :
    decode? bytes = none ↔ ∀ s, (encode s).toList ≠ bytes := by
  rw [Option.eq_none_iff_forall_ne_some]
  exact forall_congr' fun s => not_congr decode?_eq_some_iff

/-- A single byte is the code of its character, and all bytes of a longer encoding are above the
codes of such characters. -/
theorem eq_newline_of_mem {c : Char} (h : 10 ∈ String.utf8EncodeChar c) : c = '\n' := by
  have hbyte : ∀ {n : Nat}, n < 256 → 10 = UInt8.ofNat n → n = 10 := by
    intro n hn h
    simpa [Nat.mod_eq_of_lt hn] using congrArg UInt8.toNat h.symm
  simp only [String.utf8EncodeChar] at h
  split_ifs at h <;> simp only [List.mem_cons, List.not_mem_nil, or_false] at h
  · have hcode := hbyte (by omega) h
    exact Char.toNat_inj.mp hcode
  · rcases h with h | h <;> have := hbyte (by omega) h <;> omega
  · rcases h with h | h | h <;> have := hbyte (by omega) h <;> omega
  · rcases h with h | h | h | h <;> have := hbyte (by omega) h <;> omega

theorem newline_mem_encode {s : String} (h : 10 ∈ (encode s).toList) : '\n' ∈ s.toList := by
  rw [encode_toList, List.mem_flatMap] at h
  obtain ⟨c, hc, hmem⟩ := h
  rwa [← eq_newline_of_mem hmem]

end Funge.Text.Utf8
