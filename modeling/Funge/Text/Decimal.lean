/-!
Integers as decimal text. `write` gives the shortest form; `read` also takes a
leading plus sign and leading zeros, and refuses what does not fit its range.
-/

namespace Funge.Text.Decimal

def write : Int → String
  | .ofNat n => String.ofList (Nat.toDigits 10 n)
  | .negSucc n => String.ofList ('-' :: Nat.toDigits 10 (n + 1))

/-- Why a text is not an integer of the wanted range. -/
inductive Fault where
  | empty
  | invalidDigit
  | tooLarge
  | tooSmall
deriving DecidableEq

def Fault.message : Fault → String
  | empty => "cannot parse integer from empty string"
  | invalidDigit => "invalid digit found in string"
  | tooLarge => "number too large to fit in target type"
  | tooSmall => "number too small to fit in target type"

def digit? (c : Char) : Option Nat :=
  if '0' ≤ c ∧ c ≤ '9' then some (c.toNat - 48) else none

/-- Appends digits to `value`, each counted with `sign`. The first character that
is no digit, or that leads out of the range, decides the fault. -/
def extend (lo hi sign : Int) (value : Int) : List Char → Except Fault Int
  | [] => .ok value
  | c :: rest =>
    match digit? c with
    | none => .error .invalidDigit
    | some d =>
      let next := value * 10 + sign * d
      if hi < next then .error .tooLarge
      else if next < lo then .error .tooSmall
      else extend lo hi sign next rest

/-- Reads an integer between `lo` and `hi`. A minus sign belongs to the format
only if the range has negative members. -/
def read (lo hi : Int) : List Char → Except Fault Int
  | [] => .error .empty
  | ['+'] => .error .invalidDigit
  | ['-'] => .error .invalidDigit
  | '+' :: rest => extend lo hi 1 0 rest
  | '-' :: rest => if lo < 0 then extend lo hi (-1) 0 rest else .error .invalidDigit
  | text => extend lo hi 1 0 text

def readInt64 (text : List Char) : Except Fault Int64 :=
  (read Int64.minValue.toInt Int64.maxValue.toInt text).map Int64.ofInt

end Funge.Text.Decimal
