import Funge.Cell
import Funge.Direction
import Funge.Position
import Funge.Stack

/-!
Cursors: each walks over the playfield with a stack of its own.
-/

namespace Funge

inductive Mode where
  | normal
  /-- Cells are pushed instead of executed. -/
  | literal
  | terminated
deriving DecidableEq

structure Cursor where
  position : Position
  direction : Direction
  stack : Stack := .empty
  mode : Mode := .normal
  /-- The cell met in the latest turn. -/
  last : Cell := .blank
deriving DecidableEq

namespace Cursor

def initial : Cursor := ⟨.origin, .right, .empty, .normal, .blank⟩

def isTerminated (c : Cursor) : Bool := c.mode = .terminated

/-- A terminated cursor stays so. -/
def toggleLiteral (c : Cursor) : Cursor :=
  match c.mode with
  | .normal => { c with mode := .literal }
  | .literal => { c with mode := .normal }
  | .terminated => c

def terminate (c : Cursor) : Cursor := { c with mode := .terminated }

def push (c : Cursor) (v : Int64) : Cursor := { c with stack := c.stack.push v }

/-- The value `n` places below the top of the stack. -/
def operand (c : Cursor) (n : Nat) : Int64 := c.stack.get n

/-- The cursor without the top `n` values of its stack. -/
def drop (c : Cursor) (n : Nat) : Cursor := { c with stack := c.stack.drop n }

end Cursor

end Funge
