import Funge.Text.Blank
import Funge.Text.Decimal

/-!
Integers in decimal. A literal is a row of digits with at most one sign before it. Reading takes
exactly the literals whose value lies in the range, and writing gives a literal.
-/

namespace Funge.Text.Decimal

/-! ## Literals -/

/-- A row of digits. -/
structure Numeral (digits : List Char) : Prop where
  ne_nil : digits ≠ []
  digits : ∀ c ∈ digits, c.isDigit = true

/-- The text is a literal with the value. -/
inductive Literal : List Char → Int → Prop
  | unsigned {digits : List Char} (h : Numeral digits) :
      Literal digits (Nat.ofDigitChars 10 digits 0)
  | plus {digits : List Char} (h : Numeral digits) :
      Literal ('+' :: digits) (Nat.ofDigitChars 10 digits 0)
  | minus {digits : List Char} (h : Numeral digits) :
      Literal ('-' :: digits) (-Nat.ofDigitChars 10 digits 0)

theorem literal_write (v : Int) : Literal (write v).toList v := by
  have hnumeral : ∀ n, Numeral (Nat.toDigits 10 n) := fun n =>
    ⟨Nat.toDigits_ne_nil, fun c => Nat.isDigit_of_mem_toDigits (by decide) (by decide)⟩
  cases v with
  | ofNat n =>
    have h := Literal.unsigned (hnumeral n)
    rw [Nat.ofDigitChars_ten_toDigits] at h
    simpa [write] using h
  | negSucc n =>
    have h := Literal.minus (hnumeral (n + 1))
    rw [Nat.ofDigitChars_ten_toDigits] at h
    simpa [write, Int.negSucc_eq] using h

theorem toNat_of_isDigit {c : Char} (h : c.isDigit = true) : 48 ≤ c.toNat ∧ c.toNat ≤ 57 := by
  simpa [Char.isDigit, UInt32.le_iff_toNat_le] using h

theorem isBlank_of_isDigit {c : Char} (h : c.isDigit = true) : isBlank c = false := by
  have hcode := toNat_of_isDigit h
  simp [isBlank, blankRanges]
  omega

theorem Literal.not_blank {text : List Char} {v : Int} (h : Literal text v) :
    ∀ c ∈ text, isBlank c = false := by
  cases h with
  | unsigned h => exact fun c hc => isBlank_of_isDigit (h.digits c hc)
  | plus h | minus h =>
    intro c hc
    rcases List.mem_cons.mp hc with rfl | hc
    · decide
    · exact isBlank_of_isDigit (h.digits c hc)

theorem literal_plus_iff (digits : List Char) (v : Int) :
    Literal ('+' :: digits) v ↔ Numeral digits ∧ v = Nat.ofDigitChars 10 digits 0 := by
  constructor
  · intro h
    cases h with
    | unsigned h => exact absurd (h.digits '+' (by simp)) (by decide)
    | plus h => exact ⟨h, rfl⟩
  · rintro ⟨h, rfl⟩
    exact .plus h

theorem literal_minus_iff (digits : List Char) (v : Int) :
    Literal ('-' :: digits) v ↔ Numeral digits ∧ v = -Nat.ofDigitChars 10 digits 0 := by
  constructor
  · intro h
    cases h with
    | unsigned h => exact absurd (h.digits '-' (by simp)) (by decide)
    | minus h => exact ⟨h, rfl⟩
  · rintro ⟨h, rfl⟩
    exact .minus h

theorem literal_unsigned_iff {text : List Char} (hplus : text.head? ≠ some '+')
    (hminus : text.head? ≠ some '-') (v : Int) :
    Literal text v ↔ Numeral text ∧ v = Nat.ofDigitChars 10 text 0 := by
  constructor
  · intro h
    cases h with
    | unsigned h => exact ⟨h, rfl⟩
    | plus => exact absurd rfl hplus
    | minus => exact absurd rfl hminus
  · rintro ⟨h, rfl⟩
    exact .unsigned h

/-! ## Writing -/

theorem write_ne_empty (v : Int) : write v ≠ "" := by
  cases v <;> simp [write]

theorem mem_write {v : Int} {c : Char} (h : c ∈ (write v).toList) :
    c = '-' ∨ c.isDigit = true := by
  cases v with
  | ofNat n =>
    simp only [write, String.toList_ofList] at h
    exact Or.inr (Nat.isDigit_of_mem_toDigits (by decide) (by decide) h)
  | negSucc n =>
    simp only [write, String.toList_ofList, List.mem_cons] at h
    rcases h with rfl | h
    · exact Or.inl rfl
    · exact Or.inr (Nat.isDigit_of_mem_toDigits (by decide) (by decide) h)

theorem not_control_write {v : Int} {c : Char} (h : c ∈ (write v).toList) : 0x20 ≤ c.toNat := by
  rcases mem_write h with rfl | hdigit
  · decide
  · have hcode := toNat_of_isDigit hdigit
    omega

/-! ## Reading -/

theorem digit?_eq (c : Char) :
    digit? c = if c.isDigit = true then some (c.toNat - '0'.toNat) else none := by
  simp [digit?, Char.isDigit, Char.le_def]

theorem le_ofDigitChars (digits : List Char) (n : Nat) : n ≤ Nat.ofDigitChars 10 digits n := by
  rw [Nat.ofDigitChars_eq_ofDigitChars_zero]
  have := Nat.le_mul_of_pos_left n (Nat.pow_pos (n := digits.length) (show 0 < 10 by decide))
  omega

/-- What has been read lies between zero and the whole, so it leaves the range only if the whole
does. -/
theorem extend_eq_ok_iff {lo hi sign : Int} (hsign : sign = 1 ∨ sign = -1) (digits : List Char)
    {n : Nat} (hlo : lo ≤ sign * n) (hhi : sign * n ≤ hi) (v : Int) :
    extend lo hi sign (sign * n) digits = .ok v ↔
      (∀ c ∈ digits, c.isDigit = true) ∧ v = sign * Nat.ofDigitChars 10 digits n ∧
        lo ≤ v ∧ v ≤ hi := by
  induction digits generalizing n with
  | nil =>
    rw [extend, Except.ok.injEq, Nat.ofDigitChars_nil, eq_comm]
    constructor
    · rintro rfl
      exact ⟨by simp, rfl, hlo, hhi⟩
    · exact fun h => h.2.1
  | cons c digits ih =>
    rw [extend, digit?_eq, List.forall_mem_cons]
    by_cases hc : c.isDigit = true
    · have hwhole := le_ofDigitChars digits (10 * n + (c.toNat - '0'.toNat))
      have hnext : sign * n * 10 + sign * (c.toNat - '0'.toNat : Nat) =
          sign * (10 * n + (c.toNat - '0'.toNat) : Nat) := by
        rcases hsign with rfl | rfl <;> omega
      simp only [if_pos hc, hnext, Nat.ofDigitChars_cons]
      split
      · next hlarge =>
        simp only [reduceCtorEq, false_iff]
        rintro ⟨_, rfl, _, hle⟩
        rcases hsign with rfl | rfl <;> omega
      · split
        · next hsmall =>
          simp only [reduceCtorEq, false_iff]
          rintro ⟨_, rfl, hle, _⟩
          rcases hsign with rfl | rfl <;> omega
        · rw [ih (by omega) (by omega)]
          simp only [hc, true_and]
    · simp [hc]

/-- Reading takes the literals whose value lies in the range, and nothing else. -/
theorem read_eq_ok_iff {lo hi : Int} (hlo : lo < 0) (hhi : 0 ≤ hi) (text : List Char) (v : Int) :
    read lo hi text = .ok v ↔ Literal text v ∧ lo ≤ v ∧ v ≤ hi := by
  have hextend : ∀ {sign : Int}, sign = 1 ∨ sign = -1 → ∀ digits,
      extend lo hi sign 0 digits = .ok v ↔
        (∀ c ∈ digits, c.isDigit = true) ∧ v = sign * Nat.ofDigitChars 10 digits 0 ∧
          lo ≤ v ∧ v ≤ hi := by
    intro sign hsign digits
    have h := extend_eq_ok_iff (n := 0) hsign digits (by simpa using Int.le_of_lt hlo)
      (by simpa using hhi) v
    simpa only [Int.natCast_zero, Int.mul_zero] using h
  have hnumeral : ∀ {digits : List Char}, digits ≠ [] →
      ((∀ c ∈ digits, c.isDigit = true) ↔ Numeral digits) := fun hne =>
    ⟨fun h => ⟨hne, h⟩, Numeral.digits⟩
  unfold read
  split
  · rw [literal_unsigned_iff (by simp) (by simp)]
    exact ⟨nofun, fun h => absurd rfl h.1.1.ne_nil⟩
  · rw [literal_plus_iff]
    exact ⟨nofun, fun h => absurd rfl h.1.1.ne_nil⟩
  · rw [literal_minus_iff]
    exact ⟨nofun, fun h => absurd rfl h.1.1.ne_nil⟩
  · next rest hne =>
    rw [hextend (Or.inl rfl), hnumeral hne, literal_plus_iff, Int.one_mul, and_assoc]
  · next rest hne =>
    rw [if_pos hlo, hextend (Or.inr rfl), hnumeral hne, literal_minus_iff, Int.neg_one_mul,
      and_assoc]
  · next hne _ _ hplus hminus =>
    have hhead : ∀ {c : Char}, (∀ rest, text = c :: rest → False) → text.head? ≠ some c := by
      intro c hno h
      obtain ⟨rest, hrest⟩ := List.head?_eq_some_iff.mp h
      exact hno rest hrest
    rw [hextend (Or.inl rfl), hnumeral hne, literal_unsigned_iff (hhead hplus) (hhead hminus),
      Int.one_mul, and_assoc]

theorem readInt64_eq_ok_iff (text : List Char) (v : Int64) :
    readInt64 text = .ok v ↔ Literal text v.toInt := by
  have hread := read_eq_ok_iff (show Int64.minValue.toInt < 0 by decide)
    (show 0 ≤ Int64.maxValue.toInt by decide) text
  unfold readInt64
  constructor
  · intro h
    cases hvalue : read Int64.minValue.toInt Int64.maxValue.toInt text with
    | error reason =>
      rw [hvalue] at h
      cases h
    | ok x =>
      obtain ⟨hliteral, hlow, hhigh⟩ := (hread x).mp hvalue
      rw [hvalue] at h
      have hv : Int64.ofInt x = v := Except.ok.inj h
      rw [Int64.toInt_minValue] at hlow
      rw [Int64.toInt_maxValue] at hhigh
      rwa [← hv, Int64.toInt_ofInt_of_le (by omega) (by omega)]
  · intro h
    have hlow : Int64.minValue.toInt ≤ v.toInt := Int64.le_iff_toInt_le.mp (Int64.minValue_le v)
    have hhigh : v.toInt ≤ Int64.maxValue.toInt := Int64.le_iff_toInt_le.mp (Int64.le_maxValue v)
    rw [(hread v.toInt).mpr ⟨h, hlow, hhigh⟩]
    exact congrArg Except.ok (Int64.ofInt_toInt v)

end Funge.Text.Decimal
