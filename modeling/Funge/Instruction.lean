import Funge.Cell
import Funge.Direction

/-!
The instructions and the characters that stand for them.
-/

namespace Funge

inductive Instruction where
  | digit (value : UInt8)
  | add
  | subtract
  | multiply
  | divide
  | modulo
  | not
  | greater
  | go (d : Direction)
  | horizontalIf
  | verticalIf
  | goRandom
  | turnLeft
  | turnRight
  | compareTurn
  | trampoline
  | jumpOver
  | jumpForward
  | duplicate
  | swap
  | discard
  | clear
  | printInteger
  | printCharacter
  | readInteger
  | readCharacter
  | put
  | get
  | fork
  | halt
  | toggleLiteral
  | nop
  | reserved (c : Char)
deriving DecidableEq

namespace Instruction

/-- Encloses stretches of the playfield that are passed over. -/
def marker : Char := ';'

/-- Opens and closes literal mode. -/
def toggle : Char := '"'

/-- Characters with a meaning set aside but not given yet. -/
def reservedChars : List Char :=
  ['\'', '(', ')', '\x7b', '\x7d', '=', 'h', 'i', 'k', 'l', 'm', 'o', 'q', 'r', 's', 'u',
   'x', 'y', 'z']

/-- The value of a hexadecimal digit in lower case. -/
def hexValue? (c : Char) : Option UInt8 :=
  if '0' ≤ c ∧ c ≤ '9' then some (c.toNat - 48).toUInt8
  else if 'a' ≤ c ∧ c ≤ 'f' then some (c.toNat - 87).toUInt8
  else none

/-- The characters with a fixed meaning, digits apart. -/
def command? : Char → Option Instruction
  | '+' => some add
  | '-' => some subtract
  | '*' => some multiply
  | '/' => some divide
  | '%' => some modulo
  | '!' => some not
  | '\x60' => some greater
  | '>' => some (go .right)
  | '<' => some (go .left)
  | '^' => some (go .up)
  | 'v' => some (go .down)
  | '_' => some horizontalIf
  | '|' => some verticalIf
  | '?' => some goRandom
  | '[' => some turnLeft
  | ']' => some turnRight
  | 'w' => some compareTurn
  | '#' => some trampoline
  | ';' => some jumpOver
  | 'j' => some jumpForward
  | ':' => some duplicate
  | '\\' => some swap
  | '$' => some discard
  | 'n' => some clear
  | '.' => some printInteger
  | ',' => some printCharacter
  | '&' => some readInteger
  | '~' => some readCharacter
  | 'p' => some put
  | 'g' => some get
  | 't' => some fork
  | '@' => some halt
  | '"' => some toggleLiteral
  | ' ' => some nop
  | _ => none

def ofChar? (c : Char) : Option Instruction :=
  match hexValue? c with
  | some value => some (digit value)
  | none => if c ∈ reservedChars then some (reserved c) else command? c

/-- A bare number is no instruction. -/
def ofCell? : Cell → Option Instruction
  | .char c => ofChar? c
  | .int _ => none

end Instruction

end Funge
