/-!
Characters written by their codes, and texts made safe for a terminal, which some
characters would steer.
-/

namespace Funge.Text

/-- A code below 256 by two hexadecimal digits. -/
def byteCode (n : Nat) : List Char :=
  ['\\', 'x', Nat.digitChar (n / 16), Nat.digitChar (n % 16)]

/-- Any code in hexadecimal, between braces. -/
def scalarCode (n : Nat) : List Char :=
  ['\\', 'u', '\x7b'] ++ Nat.toDigits 16 n ++ ['\x7d']

/-- Bell, backspace, form feed, escape and delete. -/
def terminalControls : List Nat := [0x07, 0x08, 0x0c, 0x1b, 0x7f]

/-- The controls above and the eight-bit ones are written by their codes; line ends,
tabs and the other controls stay as they are. -/
def tameChar (c : Char) : List Char :=
  if c.toNat ∈ terminalControls then byteCode c.toNat
  else if 0x80 ≤ c.toNat ∧ c.toNat ≤ 0x9f then scalarCode c.toNat
  else [c]

def tame (s : String) : String := String.ofList (s.toList.flatMap tameChar)

end Funge.Text
