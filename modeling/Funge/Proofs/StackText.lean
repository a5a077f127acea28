import Funge.Stack
import Funge.Proofs.Literal
import Funge.Proofs.Utf8

/-!
The two texts of a stack. Values stand between commas, and each of them shows where it ends: a
decimal integer at the next comma, a quoted character at its closing quote, so that a comma between
quotes divides nothing. Both texts can be read back, hence no two stacks share one, and both stay
on their line.
-/

namespace Funge.Stack

open Text

/-! ## Reading -/

/-- A decimal integer up to the next comma, and what follows it. -/
def readDecimal (text : List Char) : Option (Int64 × List Char) :=
  match Decimal.readInt64 (text.takeWhile (· ≠ ',')) with
  | .ok v => some (v, text.dropWhile (· ≠ ','))
  | .error _ => none

def hexDigit? (c : Char) : Option Nat := (List.range 16).find? (Nat.digitChar · = c)

/-- The code that an escape stands for; its backslash has been read. -/
def readEscape : List Char → Option (Nat × List Char)
  | 't' :: rest => some (0x09, rest)
  | 'n' :: rest => some (0x0a, rest)
  | 'r' :: rest => some (0x0d, rest)
  | '\\' :: rest => some (0x5c, rest)
  | 'x' :: high :: low :: rest =>
    match hexDigit? high, hexDigit? low with
    | some h, some l => some (16 * h + l, rest)
    | _, _ => none
  | _ => none

/-- The code of a character between quotes; the opening one has been read. -/
def readCode : List Char → Option (Nat × List Char)
  | [] => none
  | c :: rest => if c = '\\' then readEscape rest else some (c.toNat, rest)

/-- A value in the form of `valueAsCharacter`, and what follows it. -/
def readCharacter : List Char → Option (Int64 × List Char)
  | '"' :: '\'' :: '"' :: rest => some (0x27, rest)
  | '\'' :: text =>
    match readCode text with
    | some (n, '\'' :: rest) => some (Int64.ofNat n, rest)
    | _ => none
  | text => readDecimal text

/-- At most `fuel` values with commas between them. -/
def readValues (read : List Char → Option (Int64 × List Char)) :
    Nat → List Char → Option (List Int64)
  | 0, _ => none
  | fuel + 1, text =>
    match read text with
    | some (v, []) => some [v]
    | some (v, ',' :: rest) => (readValues read fuel rest).map (v :: ·)
    | _ => none

def readStack (read : List Char → Option (Int64 × List Char)) (text : String) : Option Stack :=
  if text = "" then some empty else (readValues read text.length text.toList).map ofList

def ofText? : String → Option Stack := readStack readDecimal

def ofCharacters? : String → Option Stack := readStack readCharacter

/-! ## Lists of values -/

/-- A value ends here: with the text or before a comma. -/
def Ends (rest : List Char) : Prop := rest = [] ∨ ∃ more, rest = ',' :: more

/-- What is written of a value is read off again, whatever values follow it. -/
structure Inverts (read : List Char → Option (Int64 × List Char)) (write : Int64 → String) :
    Prop where
  ne_empty : ∀ v, write v ≠ ""
  reads : ∀ v rest, Ends rest → read ((write v).toList ++ rest) = some (v, rest)

section

variable {read : List Char → Option (Int64 × List Char)} {write : Int64 → String}

theorem Inverts.readValues (h : Inverts read write) {vs : List Int64} (hvs : vs ≠ []) {fuel : Nat}
    (hfuel : vs.length ≤ fuel) :
    readValues read fuel (",".intercalate (vs.map write)).toList = some vs := by
  induction vs generalizing fuel with
  | nil => exact absurd rfl hvs
  | cons v vs ih =>
    obtain ⟨fuel, rfl⟩ : ∃ k, fuel = k + 1 := ⟨fuel - 1, by simp at hfuel; omega⟩
    cases vs with
    | nil =>
      have hread := h.reads v [] (Or.inl rfl)
      rw [List.append_nil] at hread
      simp [Stack.readValues, hread]
    | cons w vs =>
      have hrest : Stack.readValues read fuel (",".intercalate ((w :: vs).map write)).toList =
          some (w :: vs) := ih (by simp) (by simpa using hfuel)
      have hread := h.reads v (',' :: (",".intercalate ((w :: vs).map write)).toList)
        (Or.inr ⟨_, rfl⟩)
      have htext : (",".intercalate ((v :: w :: vs).map write)).toList =
          (write v).toList ++ ',' :: (",".intercalate ((w :: vs).map write)).toList := by
        simp only [List.map_cons, String.intercalate_cons_cons, String.toList_append]
        simp
      rw [Stack.readValues, htext, hread]
      simp only [hrest, Option.map_some]

theorem Inverts.length_le (h : Inverts read write) (vs : List Int64) :
    vs.length ≤ (",".intercalate (vs.map write)).length := by
  have hwrite : ∀ v, 1 ≤ (write v).length := by
    intro v
    have hne := h.ne_empty v
    rw [Ne, ← String.length_eq_zero_iff] at hne
    omega
  induction vs with
  | nil => simp
  | cons v vs ih =>
    have hv := hwrite v
    cases vs with
    | nil => simpa using hv
    | cons w vs =>
      simp only [List.map_cons, String.intercalate_cons_cons, String.length_append,
        List.length_cons] at ih ⊢
      omega

/-- A stack is read back from the text of all its values. -/
theorem Inverts.readStack (h : Inverts read write) (s : Stack) :
    readStack read (",".intercalate (s.toList.map write)) = some s := by
  have hlength := h.length_le s.toList
  rw [Stack.readStack]
  split
  · next hempty =>
    rw [hempty] at hlength
    have hnil : s.toList = [] := List.length_eq_zero_iff.mp (by simpa using hlength)
    obtain ⟨values⟩ := s
    simpa [toList, empty] using hnil
  · next hne =>
    have hnil : s.toList ≠ [] := by
      intro hnil
      simp [hnil] at hne
    rw [h.readValues hnil hlength]
    simp [ofList, toList]

end

/-! ## Single values -/

theorem readDecimal_write (v : Int64) {rest : List Char} (hrest : Ends rest) :
    readDecimal ((Decimal.write v.toInt).toList ++ rest) = some (v, rest) := by
  have hbody : ∀ c ∈ (Decimal.write v.toInt).toList, decide (c ≠ ',') = true := by
    intro c hc
    rcases Decimal.mem_write hc with rfl | hdigit
    · decide
    · rw [decide_eq_true_eq]
      rintro rfl
      cases hdigit
  have hread := (Decimal.readInt64_eq_ok_iff _ v).mpr (Decimal.literal_write v.toInt)
  rw [readDecimal, List.takeWhile_append_of_pos hbody, List.dropWhile_append_of_pos hbody]
  rcases hrest with rfl | ⟨more, rfl⟩
  · simp [hread]
  · simp [hread]

theorem hexDigit?_digitChar {d : Nat} (hd : d < 16) : hexDigit? (Nat.digitChar d) = some d := by
  revert d
  decide

theorem toNat_ofNat_of_lt {n : Nat} (hn : n < 256) : (Char.ofNat n).toNat = n :=
  Utf8.toNat_ofNat (Or.inl (by omega))

theorem not_control_digitChar {d : Nat} (hd : d < 16) : 0x20 ≤ (Nat.digitChar d).toNat := by
  revert d
  decide

/-- All codes but that of the apostrophe stand between single quotes. Every escape has its own sign
after the backslash and nothing else begins with one, so the code can be read; and what is written
of it has no control characters. -/
theorem characterText_cases {n : Nat} (hn : n < 256) :
    n = 0x27 ∧ characterText n = "\"'\"" ∨
      ∃ body : String, characterText n = "'" ++ body ++ "'" ∧
        (∀ rest, readCode (body.toList ++ rest) = some (n, rest)) ∧
        ∀ c ∈ body.toList, 0x20 ≤ c.toNat := by
  unfold characterText
  by_cases hquote : n = 0x27
  · exact Or.inl ⟨hquote, if_pos hquote⟩
  · rw [if_neg hquote]
    refine Or.inr ⟨_, rfl, ?_⟩
    split_ifs with hbackslash htab hfeed hreturn hshown
    · simp [readCode, readEscape, hbackslash]
    · simp [readCode, readEscape, htab]
    · simp [readCode, readEscape, hfeed]
    · simp [readCode, readEscape, hreturn]
    · have hcode := toNat_ofNat_of_lt hn
      have hplain : Char.ofNat n ≠ '\\' := by
        intro h
        rw [h] at hcode
        exact hbackslash hcode.symm
      have hvisible : 0x20 ≤ n := by omega
      simp [readCode, hplain, hcode, hvisible]
    · have hhigh : n / 16 < 16 := by omega
      have hlow : n % 16 < 16 := by omega
      simp [readCode, readEscape, byteCode, hexDigit?_digitChar, not_control_digitChar, hhigh, hlow,
        Nat.div_add_mod n 16]

theorem readCharacter_characterText {n : Nat} (hn : n < 256) (rest : List Char) :
    readCharacter ((characterText n).toList ++ rest) = some (Int64.ofNat n, rest) := by
  rcases characterText_cases hn with ⟨rfl, htext⟩ | ⟨body, htext, hbody, _⟩
  · simp [readCharacter, htext]
  · simp [readCharacter, htext, hbody]

theorem not_control_characterText {n : Nat} (hn : n < 256) :
    ∀ c ∈ (characterText n).toList, 0x20 ≤ c.toNat := by
  rcases characterText_cases hn with ⟨_, htext⟩ | ⟨body, htext, _, hbody⟩
  · simp [htext]
  · simp only [htext, String.toList_append, List.forall_mem_append]
    simpa using hbody

theorem toInt_of_isByte {v : Int64} (h : 0 ≤ v ∧ v ≤ 255) : 0 ≤ v.toInt ∧ v.toInt ≤ 255 := by
  rw [Int64.le_iff_toInt_le, Int64.le_iff_toInt_le] at h
  exact h

theorem readCharacter_of_unquoted {c : Char} (hdouble : c ≠ '"') (hsingle : c ≠ '\'')
    (text : List Char) : readCharacter (c :: text) = readDecimal (c :: text) := by
  unfold readCharacter
  split <;> simp_all

theorem readCharacter_write (v : Int64) {rest : List Char} (hrest : Ends rest) :
    readCharacter ((Decimal.write v.toInt).toList ++ rest) = some (v, rest) := by
  rw [← readDecimal_write v hrest]
  cases htext : (Decimal.write v.toInt).toList with
  | nil => exact absurd (String.toList_eq_nil_iff.mp htext) (Decimal.write_ne_empty _)
  | cons c text =>
    have hc : c = '-' ∨ c.isDigit = true := Decimal.mem_write (htext ▸ List.mem_cons_self ..)
    apply readCharacter_of_unquoted
    · rintro rfl
      simp at hc
    · rintro rfl
      simp at hc

/-! ## Both texts -/

theorem inverts_write : Inverts readDecimal fun v => Decimal.write v.toInt where
  ne_empty v := Decimal.write_ne_empty v.toInt
  reads v _ := readDecimal_write v

theorem inverts_valueAsCharacter : Inverts readCharacter valueAsCharacter where
  ne_empty v := by
    unfold valueAsCharacter characterText
    split
    · split <;> simp
    · exact Decimal.write_ne_empty v.toInt
  reads v rest hrest := by
    unfold valueAsCharacter
    split
    · next hbyte =>
      obtain ⟨hlow, hhigh⟩ := toInt_of_isByte hbyte
      rw [readCharacter_characterText (by omega), ← Int64.ofInt_eq_ofNat, Int.toNat_of_nonneg hlow,
        Int64.ofInt_toInt]
    · exact readCharacter_write v hrest

theorem ofText?_text (s : Stack) : ofText? s.text = some s := inverts_write.readStack s

theorem ofCharacters?_characters (s : Stack) : ofCharacters? s.characters = some s :=
  inverts_valueAsCharacter.readStack s

/-! ## Control characters

Neither text has any, so above all no line end and no escape. -/

theorem not_control_valueAsCharacter {v : Int64} {c : Char}
    (h : c ∈ (valueAsCharacter v).toList) : 0x20 ≤ c.toNat := by
  unfold valueAsCharacter at h
  split at h
  · next hbyte =>
    have := toInt_of_isByte hbyte
    exact not_control_characterText (by omega) c h
  · exact Decimal.not_control_write h

theorem not_control_intercalate {write : Int64 → String}
    (hwrite : ∀ v, ∀ c ∈ (write v).toList, 0x20 ≤ c.toNat) (vs : List Int64) :
    ∀ c ∈ (",".intercalate (vs.map write)).toList, 0x20 ≤ c.toNat := by
  induction vs with
  | nil => simp
  | cons v vs ih =>
    cases vs with
    | nil => simpa using hwrite v
    | cons w vs =>
      intro c hc
      simp only [List.map_cons, String.intercalate_cons_cons, String.toList_append,
        List.mem_append] at hc ih
      rcases hc with (hc | hc) | hc
      · exact hwrite v c hc
      · simp_all
      · exact ih c hc

theorem not_control_text (s : Stack) : ∀ c ∈ s.text.toList, 0x20 ≤ c.toNat :=
  not_control_intercalate (fun _ _ => Decimal.not_control_write) s.toList

theorem not_control_characters (s : Stack) : ∀ c ∈ s.characters.toList, 0x20 ≤ c.toNat :=
  not_control_intercalate (fun _ _ => not_control_valueAsCharacter) s.toList

/-- **The texts of a stack are unambiguous.** No two stacks have the same text, and no two have the
same text in characters: from either the stack can be read back. Both texts have no line end in
them, so that in a frame each ends with its line. -/
theorem texts_unambiguous :
    Function.Injective characters ∧ Function.Injective text ∧
      ∀ s : Stack, ofCharacters? s.characters = some s ∧ ofText? s.text = some s ∧
        '\n' ∉ s.characters.toList ∧ '\n' ∉ s.text.toList := by
  refine ⟨?_, ?_, fun s => ⟨ofCharacters?_characters s, ofText?_text s, ?_, ?_⟩⟩
  · intro s t h
    apply Option.some.inj
    rw [← ofCharacters?_characters s, h, ofCharacters?_characters t]
  · intro s t h
    apply Option.some.inj
    rw [← ofText?_text s, h, ofText?_text t]
  · intro h
    exact absurd (not_control_characters s _ h) (by decide)
  · intro h
    exact absurd (not_control_text s _ h) (by decide)

/-- A comma, the two quotes, a backslash, a digit, a line feed and the sign for it, a code without a
character, and values that are no codes. -/
example : (ofList [44, 39, 34, 92, 55, 10, 110, 173, 256, -1]).characters =
    "',',\"'\",'\"','\\\\','7','\\n','n','\\xad',256,-1" := by
  decide +kernel

end Funge.Stack
