/-!
The four ways of travel. Columns grow to the right and rows grow downwards.
-/

namespace Funge

inductive Direction where
  | left
  | right
  | up
  | down
deriving DecidableEq

namespace Direction

/-- The order in which a random draw numbers the directions. -/
def all : List Direction := [left, right, down, up]

def ofDraw (i : Fin 4) : Direction := all.get i

def opposite : Direction → Direction
  | left => right
  | right => left
  | up => down
  | down => up

def turnLeft : Direction → Direction
  | left => down
  | down => right
  | right => up
  | up => left

def turnRight : Direction → Direction
  | left => up
  | up => right
  | right => down
  | down => left

def isHorizontal : Direction → Bool
  | left | right => true
  | up | down => false

/-- The change of the coordinate that a single step moves along. -/
def step : Direction → Int64
  | right | down => 1
  | left | up => -1

def text : Direction → String
  | left => "LEFT"
  | right => "RIGHT"
  | up => "UP"
  | down => "DOWN"

theorem opposite_opposite (d : Direction) : d.opposite.opposite = d := by
  cases d <;> rfl

theorem turnRight_turnLeft (d : Direction) : d.turnLeft.turnRight = d := by
  cases d <;> rfl

end Direction

end Funge
