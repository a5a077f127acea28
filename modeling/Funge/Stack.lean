import Funge.Text.CharCode
import Funge.Text.Decimal

/-!
A cursor's stack. It never underflows: below the last value lie zeros without
end, so `get` and `pop` always answer.
-/

namespace Funge

/-- The top of the stack is the head of `values`. -/
structure Stack where
  values : List Int64
deriving DecidableEq

namespace Stack

def empty : Stack := ⟨[]⟩

/-- The values from the bottom to the top. -/
def toList (s : Stack) : List Int64 := s.values.reverse

def ofList (vs : List Int64) : Stack := ⟨vs.reverse⟩

def size (s : Stack) : Nat := s.values.length

def isEmpty (s : Stack) : Bool := s.values.isEmpty

/-- The value `n` places below the top. -/
def get (s : Stack) (n : Nat) : Int64 := s.values.getD n 0

/-- The stack without its top `n` values. -/
def drop (s : Stack) (n : Nat) : Stack := ⟨s.values.drop n⟩

def push (s : Stack) (v : Int64) : Stack := ⟨v :: s.values⟩

def peek (s : Stack) : Int64 := s.get 0

def pop (s : Stack) : Int64 × Stack := (s.peek, s.drop 1)

def dup (s : Stack) : Stack := s.push s.peek

def swap (s : Stack) : Stack := ((s.drop 2).push (s.get 0)).push (s.get 1)

theorem toList_ofList (vs : List Int64) : (ofList vs).toList = vs := by
  simp [toList, ofList]

theorem toList_push (s : Stack) (v : Int64) : (s.push v).toList = s.toList ++ [v] := by
  simp [toList, push]

theorem pop_push (s : Stack) (v : Int64) : (s.push v).pop = (v, s) := rfl

def text (s : Stack) : String :=
  ",".intercalate (s.toList.map fun v => Text.Decimal.write v.toInt)

def inspect (s : Stack) : String :=
  "Stack[" ++ ", ".intercalate (s.toList.map fun v => Text.Decimal.write v.toInt) ++ "]"

/-- A value below 256 as a quoted Latin-1 character; the apostrophe itself stands
between double quotes. -/
def characterText (n : Nat) : String :=
  if n = 0x27 then "\"'\""
  else
    let body :=
      if n = 0x5c then "\\\\"
      else if n = 0x09 then "\\t"
      else if n = 0x0a then "\\n"
      else if n = 0x0d then "\\r"
      else if (0x20 ≤ n ∧ n ≤ 0x7e) ∨ (0xa1 ≤ n ∧ n ≤ 0xff ∧ n ≠ 0xad) then
        String.singleton (Char.ofNat n)
      else String.ofList (Text.byteCode n)
    "'" ++ body ++ "'"

def valueAsCharacter (v : Int64) : String :=
  if 0 ≤ v ∧ v ≤ 255 then characterText v.toInt.toNat else Text.Decimal.write v.toInt

/-- The stack with every byte value shown as a character. -/
def characters (s : Stack) : String := ",".intercalate (s.toList.map valueAsCharacter)

end Stack

end Funge
