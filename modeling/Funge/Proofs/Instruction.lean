import Funge.Instruction

/-!
Characters as values and as instructions. The code of a character is exact, and reading a character
as an instruction has an inverse: each instruction is written in one way only.
-/

namespace Funge

theorem Cell.toInt_code_char (c : Char) : (char c).code.toInt = c.toNat := by
  have hlt : c.toNat < 2 ^ 32 := c.val.toNat_lt
  exact Int64.toInt_ofNat_of_lt (by omega)

namespace Instruction

/-- The character that stands for an instruction. -/
def sign : Instruction → Char
  | digit value => Nat.digitChar value.toNat
  | add => '+'
  | subtract => '-'
  | multiply => '*'
  | divide => '/'
  | modulo => '%'
  | not => '!'
  | greater => '\x60'
  | go .right => '>'
  | go .left => '<'
  | go .up => '^'
  | go .down => 'v'
  | horizontalIf => '_'
  | verticalIf => '|'
  | goRandom => '?'
  | turnLeft => '['
  | turnRight => ']'
  | compareTurn => 'w'
  | trampoline => '#'
  | jumpOver => ';'
  | jumpForward => 'j'
  | duplicate => ':'
  | swap => '\\'
  | discard => '$'
  | clear => 'n'
  | printInteger => '.'
  | printCharacter => ','
  | readInteger => '&'
  | readCharacter => '~'
  | put => 'p'
  | get => 'g'
  | fork => 't'
  | halt => '@'
  | toggleLiteral => '"'
  | nop => ' '
  | reserved c => c

theorem sign_of_hexValue? {c : Char} {value : UInt8} (h : hexValue? c = some value) :
    (digit value).sign = c := by
  have hdecimal : ∀ n < 58, 48 ≤ n → Nat.digitChar (n - 48).toUInt8.toNat = Char.ofNat n := by
    decide
  have hletter : ∀ n < 103, 97 ≤ n → Nat.digitChar (n - 87).toUInt8.toNat = Char.ofNat n := by
    decide
  unfold hexValue? at h
  split at h
  · next hc =>
    cases h
    exact (hdecimal c.toNat (Nat.lt_succ_of_le hc.2) hc.1).trans (Char.ofNat_toNat c)
  · split at h
    · next hc =>
      cases h
      exact (hletter c.toNat (Nat.lt_succ_of_le hc.2) hc.1).trans (Char.ofNat_toNat c)
    · cases h

theorem sign_of_command? {c : Char} {i : Instruction} (h : command? c = some i) : i.sign = c := by
  unfold command? at h
  split at h <;> cases h <;> rfl

theorem sign_of_ofChar? {c : Char} {i : Instruction} (h : ofChar? c = some i) : i.sign = c := by
  unfold ofChar? at h
  split at h
  · next value hvalue =>
    cases h
    exact sign_of_hexValue? hvalue
  · split at h
    · cases h
      rfl
    · exact sign_of_command? h

theorem eq_char_of_ofCell? {cell : Cell} {i : Instruction} (h : ofCell? cell = some i) :
    cell = .char i.sign := by
  cases cell with
  | char c => rw [sign_of_ofChar? h]
  | int v => cases h

theorem eq_toggle_iff (cell : Cell) :
    cell = .char toggle ↔ ofCell? cell = some .toggleLiteral := by
  constructor
  · rintro rfl
    decide
  · exact eq_char_of_ofCell?

theorem eq_marker_iff (cell : Cell) : cell = .char marker ↔ ofCell? cell = some .jumpOver := by
  constructor
  · rintro rfl
    decide
  · exact eq_char_of_ofCell?

end Instruction

end Funge
