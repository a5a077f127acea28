import Funge.Text.Decimal

/-!
The contents of one place of the playfield: a character or a bare number.
Values in the printable range are kept as characters.
-/

namespace Funge

inductive Cell where
  | char (c : Char)
  | int (v : Int64)
deriving DecidableEq

namespace Cell

def leastPrintable : Int64 := 32

def greatestPrintable : Int64 := 126

def blank : Cell := .char ' '

def ofValue (v : Int64) : Cell :=
  if leastPrintable ≤ v ∧ v ≤ greatestPrintable then .char (Char.ofNat v.toInt.toNat)
  else .int v

def code : Cell → Int64
  | .char c => Int64.ofNat c.toNat
  | .int v => v

def text : Cell → String
  | .char c => String.singleton c
  | .int v => Text.Decimal.write v.toInt

end Cell

end Funge
