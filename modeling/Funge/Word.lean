/-!
Arithmetic on 64-bit words. Division rounds down and the remainder takes the sign
of the divisor; `wrap` moves an index around a cycle.
-/

namespace Funge.Word

/-- Rounds toward negative infinity. The divisor is not zero. -/
def floorDiv (b a : Int64) : Int64 :=
  let r := b % a
  if r ≠ 0 ∧ (r < 0 ↔ ¬ a < 0) then b / a - 1 else b / a

/-- The remainder that goes with `floorDiv`. -/
def floorMod (b a : Int64) : Int64 :=
  let r := b % a
  if r ≠ 0 ∧ (r < 0 ↔ ¬ a < 0) then r + a else r

/-- The remainder from `0` up to `n`, for a positive `n`. -/
def residue (a n : Int64) : Int64 :=
  let r := a % n
  if r < 0 then r + n else r

/-- The index `delta` places further on a cycle of `len` places. A cycle without places
leaves the index where it is. -/
def wrap (index : Nat) (delta : Int64) (len : Nat) : Nat :=
  if len = 0 then index
  else
    let n := Int64.ofNat len
    (residue (residue (Int64.ofNat index) n + delta % n) n).toInt.toNat

/-- Truth as a stack value. -/
def ofBool (b : Bool) : Int64 := if b then 1 else 0

/-- The character a value stands for, if it is the code of one. -/
def char? (v : Int64) : Option Char :=
  if 0 ≤ v ∧ v.toInt.toNat.isValidChar then some (Char.ofNat v.toInt.toNat) else none

end Funge.Word
