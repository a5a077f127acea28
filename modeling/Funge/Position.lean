import Funge.Text.Decimal

/-!
Places on the playfield, a column `x` and a row `y`, ordered by column first.
-/

namespace Funge

structure Position where
  x : Nat
  y : Nat
deriving DecidableEq

namespace Position

def origin : Position := ⟨0, 0⟩

def le (p q : Position) : Bool :=
  p.x < q.x || (p.x == q.x && p.y ≤ q.y)

def sort (ps : List Position) : List Position := ps.mergeSort le

def text (p : Position) : String :=
  Text.Decimal.write p.x ++ "," ++ Text.Decimal.write p.y

/-- Stack values as coordinates; a negative value addresses nothing. -/
def ofWords? (x y : Int64) : Option Position :=
  if 0 ≤ x ∧ 0 ≤ y then some ⟨x.toInt.toNat, y.toInt.toNat⟩ else none

end Position

end Funge
